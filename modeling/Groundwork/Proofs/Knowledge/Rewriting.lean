/-
Expansion as rewriting.

An expansion by links rewrites the graph: a dependency whose chain has intermediates goes away, and
the pairs of neighbours on all chains come.  The chains share their intermediates, and a pair may be
a dependency that another step removes.  Each step keeps what lies downstream of what, because the
chain is another way along the dependency that goes.

Main definitions:

* `Groundwork.KnowledgeBase.Underway` — a pass that has expanded some dependencies;
* `Groundwork.KnowledgeBase.Expanded` — such a pass where resources are filed under their own texts;
* `Groundwork.KnowledgeBase.TextsTell` — texts of identities tell the types.

Main results:

* `Groundwork.KnowledgeBase.Underway.step`, `Groundwork.KnowledgeBase.Underway.run` — one more
  dependency, and all of them;
* `Groundwork.KnowledgeBase.expand_keeps_downstream` — **no dependency is lost**;
* `Groundwork.KnowledgeBase.expand_rewrites` — **the graph after an expansion**.
-/
import Groundwork.Proofs.Knowledge.History
import Groundwork.Proofs.Knowledge.Linking

set_option relaxedAutoImplicit false
set_option autoImplicit false

namespace Groundwork.KnowledgeBase

open Relation
open Groundwork.Digraph (neighbours proper ends proper_union ends_union)

/-! ### Dependencies in turn -/

section Changes

variable (kb : KnowledgeBase) (defaults : EdgeData) (s : Site)
  (l m : List (Digraph.Edge Handle Payload))

theorem removed_append : kb.removed defaults s (l ++ m) =
    kb.removed defaults s l ∪ kb.removed defaults s m := by
  ext x
  simp [removed, or_and_right, exists_or]

theorem joined_append : kb.joined defaults s (l ++ m) =
    kb.joined defaults s l ∪ kb.joined defaults s m := by
  ext x
  simp [joined, or_and_right, exists_or]

end Changes

/-- The chain of a dependency is another way from its source to its target. -/
theorem leads_of_mem_removed {kb : KnowledgeBase} {defaults : EdgeData} {s : Site}
    {e : Digraph.Edge Handle Payload} {R : String → String → Prop}
    (hR : ∀ a b, (a, b) ∈ proper (kb.added defaults s [e]) → R a b)
    (hne : s.key e.source ≠ s.key e.target) {x y : String}
    (hxy : (x, y) ∈ kb.removed defaults s [e]) : TransGen R x y := by
  obtain ⟨e', he', path, hpath, hmids, heq⟩ := hxy
  obtain rfl := List.mem_singleton.1 he'
  obtain ⟨rfl, rfl⟩ := Prod.mk.inj heq
  obtain ⟨t, ht⟩ := List.exists_mem_of_ne_nil _ hmids
  obtain ⟨l, hroute, htarget⟩ := kb.exists_route_eq_cons (s.key e'.source) (s.key e'.target) ht
  have hchain : ReflTransGen R (s.key e'.source) (s.key e'.target) := by
    refine Digraph.reflTransGen_of_neighbours (fun a b hab => hR a b ⟨?_, hab.2⟩)
      (List.mem_cons_of_mem _ htarget)
    exact ⟨e', he', path, hpath, hroute ▸ hab.1⟩
  rcases reflTransGen_iff_eq_or_transGen.1 hchain with hend | hleads
  · exact absurd hend.symm hne
  · exact hleads

/-- The zero values on the chains of the dependencies of `s` have the property `K`. -/
def Supplies (kb : KnowledgeBase) (defaults : EdgeData) (s : Site) (K : Resource → Prop) : Prop :=
  ∀ e ∈ s.dependencies, ∀ path, kb.Chosen defaults s e path →
    ∀ t ∈ intermediates path, K (kb.blank t)

/-- The pass `p` has expanded the dependencies `l` of `s`. -/
structure Underway (kb : KnowledgeBase) (defaults : EdgeData) (K : Resource → Prop) (s : Site)
    (l : List (Digraph.Edge Handle Payload)) (p : Pass) : Prop where
  /-- Resources with the property `K` were added. -/
  after : s.Extends K p.site
  /-- The graph was rewritten along the chains. -/
  rewrites : s.graph.Rewrites p.site.graph (kb.removed defaults s l)
    (proper (kb.joined defaults s l)) (ends (proper (kb.joined defaults s l)))
  /-- Dependencies that have come carry nothing. -/
  plain : ∀ x y q, (x, y) ∉ s.graph.edgeSet \ kb.removed defaults s l →
    p.site.graph.properties? x y = some q → q = {}
  /-- Where resources are filed under their own texts, there is a way along each dependency that
  was there or has come, even if it has gone since. -/
  leads : s.Filed → ∀ x y, s.graph.Adj x y ∨ (x, y) ∈ proper (kb.joined defaults s l) →
    p.site.graph.Leads x y

/-- The pass `p` has expanded the dependencies `l` of `s`, whose resources are filed under their
own texts. -/
structure Expanded (kb : KnowledgeBase) (defaults : EdgeData) (s : Site)
    (l : List (Digraph.Edge Handle Payload)) (p : Pass) : Prop where
  /-- Resources are filed under their own texts. -/
  filed : p.site.Filed
  /-- The graph was rewritten along the chains. -/
  rewrites : s.graph.Rewrites p.site.graph (kb.removed defaults s l)
    (proper (kb.added defaults s l)) (kb.made defaults s l)
  /-- Whatever lay downstream of a resource still does. -/
  leads : ∀ u v, s.graph.Leads u v → p.site.graph.Leads u v

namespace Underway

variable {kb : KnowledgeBase} {defaults : EdgeData} {K : Resource → Prop} {s : Site}

theorem start (hs : s.Housed K) : Underway kb defaults K s [] { site := s } where
  after := Site.Extends.refl hs
  rewrites := by
    simpa [removed, joined, proper, ends] using Digraph.Rewrites.refl s.graph
  plain x y q hxy hq := by
    have hstays : (x, y) ∈ s.graph.edgeSet \ kb.removed defaults s [] := by
      simpa [removed] using Digraph.adj_of_properties? hq
    exact absurd hstays hxy
  leads _ x y hxy := by
    rcases hxy with hadj | ⟨hjoined, -⟩
    · exact TransGen.single hadj
    · simp [joined] at hjoined

/-- One more dependency. -/
theorem step (hkb : kb.Linking) {l : List (Digraph.Edge Handle Payload)} {p : Pass}
    (h : Underway kb defaults K s l p) (hs : s.Housed K) (hacyc : s.graph.Acyclic)
    (hK : kb.Supplies defaults s K) {e : Digraph.Edge Handle Payload} (he : e ∈ s.dependencies)
    (hquiet : (kb.expandEdge defaults p e).Quiet) :
    Underway kb defaults K s (l ++ [e]) (kb.expandEdge defaults p e) := by
  obtain ⟨hsource, htarget⟩ := hs.holds_of_mem_dependencies he
  have hround := hkb.expandEdge hs h.after (hK e he) hsource htarget hquiet
  refine ⟨hround.after, ?_, fun x y q hxy hq => ?_, fun hfiled x y hxy => ?_⟩
  · rw [removed_append, joined_append, proper_union, ends_union]
    exact h.rewrites.andRewire hround.rewires
  · rw [removed_append] at hxy
    by_cases hstays : (x, y) ∈ p.site.graph.edgeSet \ kb.removed defaults s [e]
    · rw [hround.rewires.properties x y hstays] at hq
      exact h.plain x y q (fun hold => hxy ⟨hold.1, fun hgone => hgone.elim hold.2 hstays.2⟩) hq
    · exact hround.rewires.plain x y q hstays hq
  · have hnew : ∀ a b, (a, b) ∈ proper (kb.joined defaults s [e]) →
        (kb.expandEdge defaults p e).site.graph.Adj a b := by
      intro a b hab
      have hmem : (a, b) ∈ (kb.expandEdge defaults p e).site.graph.edgeSet := by
        rw [hround.rewires.edges]
        exact Or.inr hab
      exact hmem
    have hold (hxy' : s.graph.Adj x y ∨ (x, y) ∈ proper (kb.joined defaults s l)) :
        (kb.expandEdge defaults p e).site.graph.Leads x y := by
      -- the chain is another way along the dependency that has gone
      refine hround.rewires.leads (fun a b hab _ => ?_) (h.leads hfiled x y hxy')
      refine leads_of_mem_removed (fun c d hcd => hnew c d ?_) ?_ hab
      · rwa [joined_eq_added hfiled]
      · exact hacyc.ne_of_adj (hfiled.adj_of_mem_dependencies he)
    rw [joined_append, proper_union] at hxy
    rcases hxy with hadj | hjoined | hjoined
    · exact hold (Or.inl hadj)
    · exact hold (Or.inr hjoined)
    · exact TransGen.single (hnew x y hjoined)

/-- A pass without reports has expanded all dependencies that it came to. -/
theorem run (hkb : kb.Linking) (hs : s.Housed K) (hacyc : s.graph.Acyclic)
    (hK : kb.Supplies defaults s K) {l : List (Digraph.Edge Handle Payload)}
    (hl : ∀ e ∈ l, e ∈ s.dependencies)
    (hquiet : (l.foldl (kb.expandEdge defaults) { site := s }).Quiet) :
    Underway kb defaults K s l (l.foldl (kb.expandEdge defaults) { site := s }) := by
  induction l using List.reverseRecOn with
  | nil => exact start hs
  | append_singleton l e ih =>
      obtain ⟨hrest, he⟩ := List.forall_mem_append.1 hl
      rw [List.foldl_append] at hquiet ⊢
      have hquiet' := hquiet.of_prefix (faults_expandEdge defaults _ e)
      exact (ih hrest hquiet').step hkb hs hacyc hK (he e (List.mem_singleton_self e)) hquiet

/-- Where resources are filed under their own texts, the texts on the chains are added. -/
theorem expanded {l : List (Digraph.Edge Handle Payload)} {p : Pass}
    (h : Underway kb defaults K s l p) (hs : s.Filed) (hl : ∀ e ∈ l, e ∈ s.dependencies) :
    Expanded kb defaults s l p := by
  have hrewrites := h.rewrites
  rw [joined_eq_added hs] at hrewrites
  refine ⟨h.after.filed hs, ⟨?_, hrewrites.kept, hrewrites.lower, hrewrites.upper,
    hrewrites.properties⟩, fun u v huv => ?_⟩
  · rw [hrewrites.vertices, ends_added hs hl]
  · induction huv with
    | single hxy => exact h.leads hs _ _ (Or.inl hxy)
    | tail _ hxy ih => exact TransGen.trans ih (h.leads hs _ _ (Or.inl hxy))

end Underway

/-! ### Texts that tell the types -/

/-- The types between the ends of the only chain that a dependency may take. -/
def crossed (kb : KnowledgeBase) (defaults : EdgeData) (s : Site)
    (e : Digraph.Edge Handle Payload) : List TypeTag :=
  match (kb.paths (s.store.ident e.source).tag (s.store.ident e.target).tag).filter
      (dataFor defaults e).constraint.permits with
  | [path] => intermediates path
  | _ => []

/-- The identities of the filed resources, and of the zero values on the chains between them. -/
def known (kb : KnowledgeBase) (defaults : EdgeData) (s : Site) : List Ident :=
  s.resources.map s.store.ident ++
    (s.dependencies.flatMap (kb.crossed defaults s)).map fun t => (kb.blank t).ident

/-- Known identities with the same text have the same type. -/
def TextsTell (kb : KnowledgeBase) (defaults : EdgeData) (s : Site) : Prop :=
  ∀ i ∈ kb.known defaults s, ∀ j ∈ kb.known defaults s, i.text = j.text → i.tag = j.tag

section TextsTell

variable {kb : KnowledgeBase} {defaults : EdgeData} {s : Site}

theorem Chosen.crossed_eq {e : Digraph.Edge Handle Payload} {path : List TypeTag}
    (h : kb.Chosen defaults s e path) : kb.crossed defaults s e = intermediates path := by
  rw [crossed, h]

theorem ident_mem_known {x : String} {h : Handle} (hx : s.graph.get? x = some h) :
    s.store.ident h ∈ kb.known defaults s :=
  List.mem_append_left _ (List.mem_map_of_mem (Table.mem_values_of_get? hx))

theorem blank_ident_mem_known {e : Digraph.Edge Handle Payload} (he : e ∈ s.dependencies)
    {t : TypeTag} (ht : t ∈ kb.crossed defaults s e) :
    (kb.blank t).ident ∈ kb.known defaults s :=
  List.mem_append_right _ (List.mem_map_of_mem (List.mem_flatMap_of_mem he ht))

/-- The text stands for a known resource of the type. -/
def Stands (kb : KnowledgeBase) (defaults : EdgeData) (s : Site) (t : TypeTag) (x : String) :
    Prop :=
  ∃ i ∈ kb.known defaults s, i.tag = t ∧ i.text = x

theorem TextsTell.eq_of_stands (h : kb.TextsTell defaults s) {t u : TypeTag} {x : String}
    (ht : kb.Stands defaults s t x) (hu : kb.Stands defaults s u x) : t = u := by
  obtain ⟨i, hi, rfl, rfl⟩ := ht
  obtain ⟨j, hj, rfl, hji⟩ := hu
  exact h i hi j hj hji.symm

/-- Texts that stand for different types differ. -/
theorem TextsTell.nodup (h : kb.TextsTell defaults s) {path : List TypeTag} {texts : List String}
    (hstands : List.Forall₂ (kb.Stands defaults s) path texts) (hpath : path.Nodup) :
    texts.Nodup := by
  -- equal texts at two places would stand for the same type, which has one place only
  refine List.pairwise_iff_getElem.2 fun i j hi hj hij heq => ?_
  have hlength := hstands.length_eq
  have hti : kb.Stands defaults s path[i] texts[i] := hstands.get (by omega) hi
  have htj : kb.Stands defaults s path[j] texts[j] := hstands.get (by omega) hj
  have hsame : path[i] = path[j] := h.eq_of_stands hti (heq ▸ htj)
  exact absurd (hpath.getElem_inj_iff.1 hsame) (by omega)

/-- The texts on the route of a chain stand for its types. -/
theorem forall₂_stands_route (hkb : Built kb) (hs : s.Filed) {e : Digraph.Edge Handle Payload}
    (he : e ∈ s.dependencies) {path : List TypeTag} (hpath : kb.Chosen defaults s e path) :
    List.Forall₂ (kb.Stands defaults s) path
      (kb.route (s.key e.source) (s.key e.target) path) := by
  obtain ⟨hsource, htarget⟩ := hs.get?_of_mem_dependencies he
  have hfirst : kb.Stands defaults s (s.store.ident e.source).tag (s.key e.source) :=
    ⟨_, ident_mem_known hsource, rfl, rfl⟩
  have hlast : kb.Stands defaults s (s.store.ident e.target).tag (s.key e.target) :=
    ⟨_, ident_mem_known htarget, rfl, rfl⟩
  have hmids : ∀ t ∈ intermediates path, kb.Stands defaults s t (kb.zeroKey t) := by
    intro t ht
    refine ⟨_, blank_ident_mem_known he (hpath.crossed_eq ▸ ht), ?_, rfl⟩
    obtain ⟨a, entry, hentry⟩ := hpath.chain.exists_entry_of_mem_intermediates ht
    exact hkb.tag_blank hentry
  rcases hpath.chain.eq_singleton_or with hsingle | hends
  · rw [hsingle]
    exact List.Forall₂.cons hfirst List.Forall₂.nil
  · have hbetween : List.Forall₂ (kb.Stands defaults s) (intermediates path)
        ((intermediates path).map kb.zeroKey) :=
      List.forall₂_map_right_iff.2 (List.forall₂_same.2 hmids)
    rw [route_of_ends hends]
    generalize intermediates path = mids at hends hbetween ⊢
    rw [hends]
    exact List.rel_append (List.Forall₂.cons hfirst hbetween)
      (List.Forall₂.cons hlast List.Forall₂.nil)

/-- No pair of neighbours on a chain is a loop. -/
theorem proper_added (hkb : Built kb) (h : kb.TextsTell defaults s) (hs : s.Filed) :
    proper (kb.added defaults s s.dependencies) = kb.added defaults s s.dependencies := by
  refine Set.sep_eq_self_iff_mem_true.2 ?_
  rintro ⟨x, y⟩ ⟨e, he, path, hpath, hxy⟩
  have hstands := forall₂_stands_route hkb hs he hpath
  exact Digraph.ne_of_mem_neighbours (h.nodup hstands hpath.chain.nodup) hxy

end TextsTell

/-! ### Two dependencies that share an intermediate -/

/-- A knowledge base in which `test:a` leads to `test:d` through `test:b` only. -/
def relay : KnowledgeBase :=
  let form (kind : String) : Form := { provider := "test", zero := { kind, scope := "zone" } }
  let link (kb : KnowledgeBase) (source target : String) : KnowledgeBase :=
    (kb.addForms (form source) (form target) { expand := some Expansion.link }).1
  link (link {} "a" "b") "b" "d"

/-- A site in which two resources depend on a third one. -/
def demand : Site :=
  let part (kind name : String) : Resource :=
    { ident := { provider := "test", kind, scope := "zone", name } }
  let start : Site := { store := ⟨#[part "a" "x", part "d" "y", part "a" "w"]⟩ }
  ((start.depend ⟨0⟩ ⟨1⟩ {}).1.depend ⟨2⟩ ⟨1⟩ {}).1

theorem linking_relay : relay.Linking :=
  (linking_empty.addForms _ _ rfl).addForms _ _ rfl

theorem reachable_demand : demand.Reachable :=
  ⟨_, rfl, ((Site.Reaches.refl _).depend ⟨0⟩ ⟨1⟩ {}).depend ⟨2⟩ ⟨1⟩ {}⟩

theorem filed_demand : demand.Filed := by
  refine ((Site.filed_of_graph_eq_empty rfl).depend ?_ ?_ {}).depend ?_ ?_ {}
  all_goals decide +kernel

theorem dependencies_demand : demand.dependencies = [⟨⟨0⟩, ⟨1⟩, {}⟩, ⟨⟨2⟩, ⟨1⟩, {}⟩] := by
  have harcs : demand.graph.arcs = [⟨"test:a:zone:w", "test:d:zone:y", 1, {}⟩,
      ⟨"test:a:zone:x", "test:d:zone:y", 0, {}⟩] := rfl
  have hslots : demand.graph.arcsBySlot = [⟨"test:a:zone:x", "test:d:zone:y", 0, {}⟩,
      ⟨"test:a:zone:w", "test:d:zone:y", 1, {}⟩] := by
    rw [Digraph.arcsBySlot, harcs]
    simp [List.mergeSort, List.MergeSort.Internal.splitInTwo]
  rw [Site.dependencies, Digraph.edges, hslots]
  rfl

theorem expand_demand_ok : (relay.expand {} demand).2 = .ok () := by
  have hquiet : (relay.expandPass {} demand).Quiet := by
    rw [expandPass, dependencies_demand]
    exact List.isEmpty_iff.1 (by decide +kernel)
  exact hquiet.result

/-! ### Whole expansions -/

section Expand

variable {kb : KnowledgeBase} {defaults : EdgeData} {s : Site}

/-- An expansion by links is part of the history of a site. -/
theorem Linking.reachable_expand (hkb : kb.Linking) (hs : s.Reachable) (defaults : EdgeData) :
    (kb.expand defaults s).1.Reachable := by
  obtain ⟨start, hempty, hreach⟩ := hs
  refine ⟨start, hempty, hreach.expand kb defaults ?_⟩
  intro l e behaviour hl he source target data u
  obtain rfl := Option.some.inj ((hkb.links l e hl).symm.trans he)
  exact (Site.Reaches.refl u).depend source target {}

/-- An expansion that reports nothing has expanded every dependency. -/
theorem underway_of_ok (hkb : kb.Linking) (hs : s.Reachable) {K : Resource → Prop}
    (hhoused : s.Housed K) (hK : kb.Supplies defaults s K)
    (hok : (kb.expand defaults s).2 = .ok ()) :
    Underway kb defaults K s s.dependencies (kb.expandPass defaults s) :=
  Underway.run hkb hhoused hs.acyclic hK (fun _ he => he) (Pass.quiet_of_result hok)

theorem expanded_of_ok (hkb : kb.Linking) (hs : s.Reachable) (hfiled : s.Filed)
    (hok : (kb.expand defaults s).2 = .ok ()) :
    Expanded kb defaults s s.dependencies (kb.expandPass defaults s) :=
  (underway_of_ok hkb hs hfiled.housed (fun _ _ _ _ _ _ => trivial) hok).expanded hfiled
    fun _ he => he

/-- **No dependency is lost.**  If an expansion by links reports nothing, then whatever lay
downstream of a resource before still does afterwards. -/
theorem expand_keeps_downstream (hkb : kb.Linking) (hs : s.Reachable) (hfiled : s.Filed)
    (hok : (kb.expand defaults s).2 = .ok ()) {u v : String} (huv : s.graph.Leads u v) :
    (kb.expand defaults s).1.graph.Leads u v :=
  (expanded_of_ok hkb hs hfiled hok).leads u v huv

theorem expand_keeps_downstream_demand :
    demand.graph.Leads "test:a:zone:x" "test:d:zone:y" ∧
      (relay.expand {} demand).1.graph.Leads "test:a:zone:x" "test:d:zone:y" := by
  have hleads : demand.graph.Leads "test:a:zone:x" "test:d:zone:y" :=
    TransGen.single (Digraph.hasEdge_iff.1 (by decide +kernel))
  exact ⟨hleads, expand_keeps_downstream linking_relay reachable_demand filed_demand
    expand_demand_ok hleads⟩

/-- **The graph after an expansion.**  If an expansion by links reports nothing, then the vertices
are the old ones and the zero values of the intermediates.  The edges are the old ones but for
those whose chain has intermediates, and the pairs of neighbours on all chains; only a pair of both
sorts may be there or not.  Every resource and every edge that stays is as it was. -/
theorem expand_rewrites (hkb : kb.Linking) (hs : s.Reachable) (hfiled : s.Filed)
    (htexts : kb.TextsTell defaults s) (hok : (kb.expand defaults s).2 = .ok ()) :
    s.graph.Rewrites (kb.expand defaults s).1.graph (kb.removed defaults s s.dependencies)
      (kb.added defaults s s.dependencies) (kb.made defaults s s.dependencies) := by
  rw [← proper_added hkb.built htexts hfiled]
  exact (expanded_of_ok hkb hs hfiled hok).rewrites

/-- The two dependencies have gone, and lead through the zero value that both chains share. -/
theorem expand_rewrites_demand :
    relay.TextsTell {} demand ∧
      demand.graph.Rewrites (relay.expand {} demand).1.graph
        (relay.removed {} demand demand.dependencies) (relay.added {} demand demand.dependencies)
        (relay.made {} demand demand.dependencies) ∧
      (relay.expand {} demand).1.graph.ids =
        ["test:a:zone:w", "test:a:zone:x", "test:b:zone", "test:d:zone:y"] := by
  have htexts : relay.TextsTell {} demand := by
    rw [TextsTell, known, dependencies_demand]
    decide +kernel
  refine ⟨htexts, expand_rewrites linking_relay reachable_demand filed_demand htexts
    expand_demand_ok, ?_⟩
  rw [expand, expandPass, dependencies_demand]
  decide +kernel

end Expand

end Groundwork.KnowledgeBase
