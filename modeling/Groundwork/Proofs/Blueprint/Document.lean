/-
Graphs and the blueprints that describe them.

The blueprint of a graph names constructs by their names alone.  What a blueprint declares can
therefore be written down again without loss, since a blueprint declares one construct under each
name; but a graph that arose otherwise may have constructs of several kinds under one name, and its
blueprint keeps only one of them.

Main results:

* `Groundwork.Blueprint.ofGraph_graph` — the blueprint of a declared graph;
* `Groundwork.Blueprint.ofGraph_of_toGraph` — **what a blueprint declares is written down again as
  the blueprint without its repetitions**;
* `Groundwork.Blueprint.toGraph_ofGraph_iff` — **a graph survives its blueprint if and only if its
  constructs have different names**.
-/
import Groundwork.Proofs.Blueprint.Raising
import Groundwork.Proofs.Digraph.Outline

set_option relaxedAutoImplicit false
set_option autoImplicit false

namespace Groundwork

/-! ### Lists without repetitions -/

section EraseDups

variable {α : Type} [DecidableEq α]

theorem nodup_eraseDups (l : List α) : l.eraseDups.Nodup := by
  induction l using List.reverseRecOn with
  | nil => exact List.nodup_nil
  | append_singleton l a ih =>
      rw [eraseDups_append_singleton]
      split
      · exact ih
      · rename_i ha
        rw [← List.concat_eq_append, List.nodup_concat]
        exact ⟨mt List.mem_eraseDups.1 ha, ih⟩

theorem eraseDups_of_nodup {l : List α} (h : l.Nodup) : l.eraseDups = l := by
  induction l using List.reverseRecOn with
  | nil => rfl
  | append_singleton l a ih =>
      rw [← List.concat_eq_append, List.nodup_concat] at h
      rw [eraseDups_append_singleton, if_neg h.1, ih h.2]

end EraseDups

/-- Lists that agree by what one function tells agree by what it determines. -/
theorem map_eq_map_of_imp {α β γ : Type} {f : α → β} {k : α → γ} {l l' : List α}
    (h : ∀ a ∈ l, ∀ b ∈ l', f a = f b → k a = k b) (hmap : l.map f = l'.map f) :
    l.map k = l'.map k := by
  induction l generalizing l' with
  | nil =>
      cases l' with
      | nil => rfl
      | cons b l' => cases hmap
  | cons a l ih =>
      cases l' with
      | nil => cases hmap
      | cons b l' =>
          obtain ⟨hhead, htail⟩ := List.cons.inj hmap
          have hl : ∀ c ∈ l, ∀ d ∈ l', f c = f d → k c = k d := fun c hc d hd =>
            h c (List.mem_cons_of_mem a hc) d (List.mem_cons_of_mem b hd)
          rw [List.map_cons, List.map_cons, h a List.mem_cons_self b List.mem_cons_self hhead,
            ih hl htail]

namespace ConstructGraph

theorem Built.wellFormed {g : ConstructGraph} (h : Built g) : g.WellFormed := by
  induction h with
  | empty => exact Digraph.wellFormed_empty
  | insert c _ ih => exact ih.insertVertex _ c
  | erase id _ ih => exact ih.eraseVertex id
  | connect s t p _ ih => exact ih.connect s t p
  | disconnect _ hok ih => exact ih.disconnect hok
  | modify s t f _ ih => exact ih.modifyProperties s t f

/-- Constructs under their own texts are listed in the order of their texts. -/
theorem map_text_values {g : ConstructGraph} (h : ∀ x c, g.get? x = some c → c.ident.text = x) :
    g.values.map (·.ident.text) = g.ids := by
  rw [Digraph.values, Table.values, Digraph.ids, Table.keys, List.map_map]
  exact List.map_congr_left fun e he => h _ _ (Table.get?_eq_some_iff.2 he)

/-- The listed edges join listed constructs, and no two of them the same. -/
theorem Built.edges_spec {g : ConstructGraph} (h : Built g) :
    (∀ e ∈ g.edges, e.source ∈ g.values ∧ e.target ∈ g.values) ∧
      (g.edges.map fun e => (e.source.ident.text, e.target.ident.text)).Nodup := by
  obtain ⟨ends, hnodup, -, hends⟩ := h.wellFormed.listsEdges_edges
  have hedge {x : String × String} {e : Digraph.Edge Construct Unit}
      (he : g.outline.edge? x.1 x.2 = some e) :
      g.get? x.1 = some e.source ∧ g.get? x.2 = some e.target := by
    simp only [Digraph.Outline.edge?, Digraph.outline, Option.bind_eq_bind,
      Option.bind_eq_some_iff, Option.pure_def, Option.some.injEq] at he
    obtain ⟨s, hs, t, ht, p, -, rfl⟩ := he
    exact ⟨hs, ht⟩
  constructor
  · intro e he
    have hsome : some e ∈ ends.map fun x => g.outline.edge? x.1 x.2 := by
      rw [hends]
      exact List.mem_map_of_mem he
    obtain ⟨x, -, hx⟩ := List.mem_map.1 hsome
    obtain ⟨hs, ht⟩ := hedge hx
    exact ⟨Table.mem_values_iff.2 ⟨_, hs⟩, Table.mem_values_iff.2 ⟨_, ht⟩⟩
  · have htexts : (g.edges.map fun e => (e.source.ident.text, e.target.ident.text)) = ends := by
      have hmap := congrArg (List.map fun o : Option (Digraph.Edge Construct Unit) =>
        o.map fun e => (e.source.ident.text, e.target.ident.text)) hends
      rw [List.map_map, List.map_map] at hmap
      refine List.map_injective_iff.2 (Option.some_injective _) ?_
      rw [List.map_map]
      refine hmap.symm.trans (List.map_congr_left fun x hx => ?_)
      have hsome : g.outline.edge? x.1 x.2 ∈ g.edges.map some := by
        rw [← hends]
        exact List.mem_map_of_mem hx
      obtain ⟨e, -, he⟩ := List.mem_map.1 hsome
      obtain ⟨hs, ht⟩ := hedge he.symm
      simp [← he, h.text_of_get? hs, h.text_of_get? ht]
    rw [htexts]
    exact hnodup

end ConstructGraph

namespace Blueprint

/-- The blueprint of a declared graph leaves out repeated edges and nothing else. -/
theorem ofGraph_graph {b : Blueprint} (h : b.Sound) :
    ofGraph b.graph = { kinds := b.kinds, edges := b.edges.eraseDups } := by
  have hvalues (c : Construct) : c ∈ b.graph.values ↔ c ∈ b.constructs :=
    ConstructGraph.mem_values_laidOut b.apart_constructs
  have hkinds : Table.ofList (b.graph.values.map fun c => (c.name, c.kind.name)) = b.kinds := by
    have hmem (x : String × String) :
        x ∈ b.graph.values.map (fun c => (c.name, c.kind.name)) ↔ x ∈ b.kinds.toList := by
      rw [List.mem_map]
      constructor
      · rintro ⟨c, hc, rfl⟩
        obtain ⟨n, hn, rfl⟩ := List.mem_map.1 ((hvalues c).1 hc)
        rwa [name_declared, kind_declared (h.node n hn).1]
      · intro hx
        exact ⟨declared x, (hvalues _).2 (List.mem_map_of_mem hx),
          Prod.ext (name_declared x) (kind_declared (h.node x hx).1)⟩
    refine Table.ext_get? fun name => ?_
    ext kind
    rw [Table.get?_ofList, hmem, Table.get?_eq_some_iff]
    · rfl
    · intro e he f hf heq
      exact Table.eq_of_mem_entries ((hmem e).1 he) ((hmem f).1 hf) heq
  have hedges : b.graph.edges.map (fun e => (⟨e.source.name, e.target.name⟩ : EdgeSpec)) =
      b.edges.eraseDups := by
    rw [graph, ConstructGraph.edges_laidOut b.apart_constructs
      (mem_constructs_of_mem_map_ends h.edge), List.map_map, List.map_map]
    refine (List.map_congr_left fun e _ => ?_).trans (List.map_id _)
    simp [ends, name_named]
  rw [ofGraph, hkinds, hedges]

/-- The blueprint of a declared graph declares the graph again. -/
theorem sound_ofGraph_graph {b : Blueprint} (h : b.Sound) :
    (ofGraph b.graph).Sound ∧ (ofGraph b.graph).graph = b.graph := by
  rw [ofGraph_graph h]
  refine ⟨⟨h.node, fun e he => h.edge e (List.mem_eraseDups.1 he)⟩, ?_⟩
  rw [graph, graph, eraseDups_of_nodup (nodup_eraseDups b.edges)]
  rfl

/-- **What a blueprint declares is written down again as the blueprint without its repetitions**,
and the blueprint that is written down declares the same graph. -/
theorem ofGraph_of_toGraph {b : Blueprint} {g : ConstructGraph} (h : toGraph b = .ok g) :
    (ofGraph g).kinds = b.kinds ∧ (ofGraph g).edges = b.edges.eraseDups ∧
      toGraph (ofGraph g) = .ok g := by
  obtain ⟨hsound, rfl⟩ := toGraph_eq_ok_iff.1 h
  obtain ⟨hsound', hgraph⟩ := sound_ofGraph_graph hsound
  have hok : toGraph (ofGraph b.graph) = .ok b.graph :=
    toGraph_eq_ok_iff.2 ⟨hsound', hgraph.symm⟩
  rw [ofGraph_graph hsound] at hok ⊢
  exact ⟨rfl, rfl, hok⟩

/-- Two constructs and an edge that is named twice. -/
theorem ofGraph_of_toGraph_repeated :
    let b : Blueprint := {
      kinds := .ofList [("web", "expose"), ("main", "execution_unit")]
      edges := [⟨"web", "main"⟩, ⟨"main", "main"⟩, ⟨"web", "main"⟩] }
    toGraph b = .ok b.graph ∧ (ofGraph b.graph).kinds = b.kinds ∧
      (ofGraph b.graph).edges = [⟨"web", "main"⟩, ⟨"main", "main"⟩] ∧
      toGraph (ofGraph b.graph) = .ok b.graph := by
  intro b
  have hsound : b.Sound := by
    have hnodes : b.kinds.toList = [("main", "execution_unit"), ("web", "expose")] := by decide
    refine ⟨?_, by decide⟩
    rw [hnodes, List.forall_mem_cons, List.forall_mem_singleton]
    constructor
    · exact ⟨⟨.executionUnit, by decide⟩, by decide⟩
    · exact ⟨⟨.gateway, by decide⟩, by decide⟩
  have hok : toGraph b = .ok b.graph := toGraph_eq_ok_iff.2 ⟨hsound, rfl⟩
  exact ⟨hok, ofGraph_of_toGraph hok⟩

/-! ### Graphs that survive their blueprints -/

section Survival

variable {g : ConstructGraph}

theorem ident_declared (c : Construct) : (declared (c.name, c.kind.name)).ident = c.ident :=
  Construct.ident_eq_iff.2
    ⟨Kind.name_injective (kind_declared ⟨c.kind, Kind.ofName?_name _⟩), name_declared _⟩

theorem mem_kinds_ofGraph {n : String × String} (hn : n ∈ (ofGraph g).kinds.toList) :
    ∃ c ∈ g.values, n = (c.name, c.kind.name) := by
  have hlist := Table.mem_of_get?_ofList (Table.get?_eq_some_iff.2 hn)
  obtain ⟨c, hc, heq⟩ := List.mem_map.1 hlist
  exact ⟨c, hc, heq.symm⟩

theorem contains_kinds_ofGraph {c : Construct} (hc : c ∈ g.values) :
    (ofGraph g).kinds.contains c.name = true :=
  Table.contains_ofList (e := (c.name, c.kind.name)) (List.mem_map.2 ⟨c, hc, rfl⟩)

/-- The blueprint of a graph of constructs with legible names is sound. -/
theorem sound_ofGraph (hg : ConstructGraph.Built g)
    (hlegible : ∀ c ∈ g.values, Ident.Legible c.name) : (ofGraph g).Sound := by
  constructor
  · intro n hn
    obtain ⟨c, hc, rfl⟩ := mem_kinds_ofGraph hn
    exact ⟨⟨c.kind, Kind.ofName?_name _⟩, hlegible c hc⟩
  · intro e he
    obtain ⟨d, hd, rfl⟩ := List.mem_map.1 he
    obtain ⟨hs, ht⟩ := hg.edges_spec.1 d hd
    exact ⟨contains_kinds_ofGraph hs, contains_kinds_ofGraph ht⟩

/-- A blueprint declares one construct under each name. -/
theorem nodup_names_graph (b : Blueprint) : (b.graph.values.map Construct.name).Nodup := by
  have hvalues (c : Construct) : c ∈ b.graph.values ↔ c ∈ b.constructs :=
    ConstructGraph.mem_values_laidOut b.apart_constructs
  have htexts : b.graph.values.map (·.ident.text) = b.graph.ids :=
    ConstructGraph.map_text_values fun x c hc =>
      ((ConstructGraph.get?_laidOut_eq_some_iff b.apart_constructs).1 hc).2
  have hnodup : b.graph.values.Nodup := by
    refine List.Nodup.of_map (·.ident.text) ?_
    rw [htexts]
    exact b.graph.vertices.keys_nodup
  refine hnodup.map_on fun c hc d hd hname => ?_
  obtain ⟨x, -, rfl⟩ := mem_constructs_iff.1 ((hvalues c).1 hc)
  obtain ⟨y, -, rfl⟩ := mem_constructs_iff.1 ((hvalues d).1 hd)
  rw [name_named, name_named] at hname
  rw [hname]

section Names

variable (hg : ConstructGraph.Built g) (hnames : (g.values.map Construct.name).Nodup)

include hnames

theorem eq_of_name {c d : Construct} (hc : c ∈ g.values) (hd : d ∈ g.values)
    (h : c.name = d.name) : c = d :=
  List.inj_on_of_nodup_map hnames hc hd h

/-- If the names differ, each construct is declared under its name. -/
theorem ident_named_ofGraph {c : Construct} (hc : c ∈ g.values) :
    ((ofGraph g).named c.name).ident = c.ident := by
  have hkind : (ofGraph g).kinds.get? c.name = some c.kind.name := by
    obtain ⟨kind, hget⟩ := Table.contains_iff.1 (contains_kinds_ofGraph hc)
    obtain ⟨d, hd, heq⟩ := mem_kinds_ofGraph (Table.get?_eq_some_iff.1 hget)
    obtain ⟨hname, rfl⟩ := Prod.mk.inj heq
    rw [hget, eq_of_name hnames hc hd hname]
  rw [named, hkind, Option.getD_some, ident_declared]

include hg

theorem map_ident_values_graph :
    (ofGraph g).graph.values.map Construct.ident = g.values.map Construct.ident := by
  have hget {x : String} {c : Construct} : (ofGraph g).graph.get? x = some c ↔
      c ∈ (ofGraph g).constructs ∧ c.ident.text = x :=
    ConstructGraph.get?_laidOut_eq_some_iff (apart_constructs _)
  have hmem (x : String) : x ∈ (ofGraph g).graph.ids ↔ x ∈ g.ids := by
    rw [Digraph.mem_ids_iff_exists, Digraph.mem_ids_iff_exists]
    constructor
    · rintro ⟨c, hc⟩
      obtain ⟨hdeclared, rfl⟩ := hget.1 hc
      obtain ⟨n, hn, rfl⟩ := List.mem_map.1 hdeclared
      obtain ⟨d, hd, rfl⟩ := mem_kinds_ofGraph hn
      obtain ⟨y, hy⟩ := Table.mem_values_iff.1 hd
      rw [ident_declared, hg.text_of_get? hy]
      exact ⟨d, hy⟩
    · rintro ⟨d, hd⟩
      have hvalue : d ∈ g.values := Table.mem_values_iff.2 ⟨x, hd⟩
      refine ⟨_, hget.2 ⟨named_mem_constructs (contains_kinds_ofGraph hvalue), ?_⟩⟩
      rw [ident_named_ofGraph hnames hvalue, hg.text_of_get? hd]
  have hids : (ofGraph g).graph.ids = g.ids := by
    have hperm := (List.perm_ext_iff_of_nodup (ofGraph g).graph.vertices.keys_nodup
      g.vertices.keys_nodup).2 hmem
    refine hperm.eq_of_pairwise (fun a b _ _ hab hba => ?_)
      (Digraph.keys_increase _) (Digraph.keys_increase _)
    exact absurd hab (lt_asymm hba)
  refine map_eq_map_of_imp (f := fun c => c.ident.text) (fun c _ d _ htext => ?_) ?_
  · exact Construct.ident_eq_iff.2 (Construct.text_ident_eq_iff.1 htext)
  · rw [ConstructGraph.map_text_values fun x c hc => (hget.1 hc).2,
      ConstructGraph.map_text_values fun x c hc => hg.text_of_get? hc, hids]

theorem map_ends_edges_graph (hsound : (ofGraph g).Sound) :
    ((ofGraph g).graph.edges.map fun e => (e.source.ident, e.target.ident)) =
      g.edges.map fun e => (e.source.ident, e.target.ident) := by
  obtain ⟨hends, htexts⟩ := hg.edges_spec
  have hnodup : (ofGraph g).edges.Nodup := by
    refine (List.Nodup.of_map _ htexts).map_on fun e he f hf heq => ?_
    refine List.inj_on_of_nodup_map htexts he hf ?_
    obtain ⟨hsource, htarget⟩ := EdgeSpec.mk.inj heq
    rw [eq_of_name hnames (hends e he).1 (hends f hf).1 hsource,
      eq_of_name hnames (hends e he).2 (hends f hf).2 htarget]
  rw [graph, eraseDups_of_nodup hnodup, ConstructGraph.edges_laidOut (apart_constructs _)
    (by simpa [eraseDups_of_nodup hnodup] using mem_constructs_of_mem_map_ends hsound.edge),
    List.map_map, List.map_map]
  change List.map _ (g.edges.map fun e => (⟨e.source.name, e.target.name⟩ : EdgeSpec)) = _
  rw [List.map_map]
  refine List.map_congr_left fun e he => ?_
  exact Prod.ext (ident_named_ofGraph hnames (hends e he).1)
    (ident_named_ofGraph hnames (hends e he).2)

end Names

/-- **A graph survives its blueprint if and only if its constructs have different names.**  Whatever
the names, the blueprint declares a graph. -/
theorem toGraph_ofGraph_iff (hg : ConstructGraph.Built g)
    (hnames : ∀ c ∈ g.values, ∃ i, Ident.parse c.ident.text = .ok i) :
    ∃ g', toGraph (ofGraph g) = .ok g' ∧
      (g'.values.map Construct.ident = g.values.map Construct.ident ∧
          (g'.edges.map fun e => (e.source.ident, e.target.ident)) =
            g.edges.map (fun e => (e.source.ident, e.target.ident)) ↔
        (g.values.map Construct.name).Nodup) := by
  have hlegible : ∀ c ∈ g.values, Ident.Legible c.name := by
    intro c hc
    obtain ⟨i, hi⟩ := hnames c hc
    exact (Construct.parse_text_ident_eq_ok_iff.1 hi).1
  have hsound := sound_ofGraph hg hlegible
  refine ⟨_, toGraph_eq_ok_iff.2 ⟨hsound, rfl⟩, ?_, ?_⟩
  · -- the names of a declared graph differ, and they are part of the identities
    rintro ⟨hidents, -⟩
    have hmap := congrArg (List.map Ident.name) hidents
    rw [List.map_map, List.map_map] at hmap
    have hnodup := (ofGraph g).nodup_names_graph
    change ((ofGraph g).graph.values.map (Ident.name ∘ Construct.ident)).Nodup at hnodup
    rw [hmap] at hnodup
    exact hnodup
  · intro hnodup
    exact ⟨map_ident_values_graph hg hnodup, map_ends_edges_graph hg hnodup hsound⟩

end Survival

/-- An entry point that depends on a unit of code. -/
def fronted (entry unit : String) : ConstructGraph :=
  ((ConstructGraph.insert {} (.ofKind .gateway entry)).insert (.ofKind .executionUnit unit)).depend
    (Construct.ofKind .gateway entry).ident (Construct.ofKind .executionUnit unit).ident

theorem built_fronted (entry unit : String) : ConstructGraph.Built (fronted entry unit) :=
  .connect _ _ {} (.insert _ (.insert _ .empty))

theorem fronted_eq {entry unit source target : String}
    (hs : (Construct.ofKind .gateway entry).ident.text = source)
    (ht : (Construct.ofKind .executionUnit unit).ident.text = target) :
    fronted entry unit =
      ({ vertices := .ofList
          [(source, .ofKind .gateway entry), (target, .ofKind .executionUnit unit)] } :
        ConstructGraph).connect source target {} := by
  rw [fronted, ConstructGraph.depend, ConstructGraph.insert, ConstructGraph.insert, hs, ht]
  rfl

/-- An entry point and a unit of code under different names. -/
theorem toGraph_ofGraph_iff_two :
    let g := fronted "web" "main"
    ConstructGraph.Built g ∧ (∀ c ∈ g.values, ∃ i, Ident.parse c.ident.text = .ok i) ∧
      (g.values.map Construct.name).Nodup ∧
      ∃ g', toGraph (ofGraph g) = .ok g' ∧
        g'.values.map Construct.ident = g.values.map Construct.ident ∧
        (g'.edges.map fun e => (e.source.ident, e.target.ident)) =
          g.edges.map fun e => (e.source.ident, e.target.ident) := by
  intro g
  have hvalues : g.values = [.ofKind .executionUnit "main", .ofKind .gateway "web"] := by
    have hs : (Construct.ofKind .gateway "web").ident.text = "klotho:expose:web" :=
      String.toList_inj.1 ((Ident.toList_text _).trans (by decide))
    have ht : (Construct.ofKind .executionUnit "main").ident.text = "klotho:execution_unit:main" :=
      String.toList_inj.1 ((Ident.toList_text _).trans (by decide))
    rw [show g = _ from fronted_eq hs ht]
    rfl
  have hnames : ∀ c ∈ g.values, ∃ i, Ident.parse c.ident.text = .ok i := by
    rw [hvalues, List.forall_mem_cons, List.forall_mem_singleton]
    exact ⟨⟨_, Construct.parse_text_ident_eq_ok_iff.2 ⟨by decide, rfl⟩⟩,
      ⟨_, Construct.parse_text_ident_eq_ok_iff.2 ⟨by decide, rfl⟩⟩⟩
  have hnodup : (g.values.map Construct.name).Nodup := by
    rw [hvalues]
    decide
  obtain ⟨g', hok, hsurvives⟩ := toGraph_ofGraph_iff (built_fronted _ _) hnames
  exact ⟨built_fronted _ _, hnames, hnodup, g', hok, hsurvives.2 hnodup⟩

/-- An entry point that depends on a unit of code of the same name is written down as one construct
that depends on itself. -/
theorem toGraph_ofGraph_shared_name :
    let entry := Construct.ofKind .gateway "api"
    let unit := Construct.ofKind .executionUnit "api"
    let g := fronted "api" "api"
    ConstructGraph.Built g ∧ (∀ c ∈ g.values, ∃ i, Ident.parse c.ident.text = .ok i) ∧
      g.values.map Construct.ident = [unit.ident, entry.ident] ∧
      (g.edges.map fun e => (e.source.ident, e.target.ident)) = [(entry.ident, unit.ident)] ∧
      ∃ g', toGraph (ofGraph g) = .ok g' ∧ g'.values.map Construct.ident = [entry.ident] ∧
        (g'.edges.map fun e => (e.source.ident, e.target.ident)) =
          [(entry.ident, entry.ident)] := by
  intro entry unit g
  have hs : entry.ident.text = "klotho:expose:api" :=
    String.toList_inj.1 ((Ident.toList_text _).trans (by decide))
  have ht : unit.ident.text = "klotho:execution_unit:api" :=
    String.toList_inj.1 ((Ident.toList_text _).trans (by decide))
  have hg : g = _ := fronted_eq hs ht
  have hvalues : g.values = [unit, entry] := by
    rw [hg]
    rfl
  have harcs : g.arcsBySlot = [⟨"klotho:expose:api", "klotho:execution_unit:api", 0, {}⟩] := by
    rw [hg]
    exact List.mergeSort_singleton _
  have hedges : g.edges = [⟨entry, unit, {}⟩] := by
    rw [Digraph.edges, harcs, hg]
    rfl
  have hlegible : ∀ c ∈ g.values, Ident.Legible c.name := by
    rw [hvalues]
    decide
  have hgraph : (ofGraph g).graph = .laidOut [entry] [(entry, entry)] := by
    have hb : ofGraph g = { kinds := .ofList [("api", "expose")], edges := [⟨"api", "api"⟩] } := by
      rw [ofGraph, hvalues, hedges]
      decide
    rw [hb]
    rfl
  have hok : toGraph (ofGraph g) = .ok (.laidOut [entry] [(entry, entry)]) :=
    toGraph_eq_ok_iff.2 ⟨sound_ofGraph (built_fronted _ _) hlegible, hgraph.symm⟩
  refine ⟨built_fronted _ _,
    fun c hc => ⟨_, Construct.parse_text_ident_eq_ok_iff.2 ⟨hlegible c hc, rfl⟩⟩, ?_, ?_,
    _, hok, rfl, ?_⟩
  · rw [hvalues]
    rfl
  · rw [hedges]
    rfl
  · rw [ConstructGraph.edges_laidOut (by simp [ConstructGraph.Apart]) (by simp)]
    rfl

end Blueprint

end Groundwork
