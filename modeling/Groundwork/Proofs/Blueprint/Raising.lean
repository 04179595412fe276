/-
The graph that a blueprint declares.

What a fault-free blueprint declares can be said without the two passes over it: the constructs of
its nodes, and an edge for each pair of names, listed in the order in which the pairs are first
named.

Main definitions:

* `Groundwork.ConstructGraph.laidOut` — the graph of some constructs and some edges, the first edge
  in the first slot;
* `Groundwork.Blueprint.graph` — the graph that a sound blueprint declares.

Main results:

* `Groundwork.ConstructGraph.depend_laidOut` — one more edge;
* `Groundwork.Blueprint.toGraph_eq_ok_iff` — **a blueprint declares a graph if and only if it is
  sound**.
-/
import Groundwork.Proofs.Blueprint.Sifting
import Groundwork.Proofs.Digraph.Operations

set_option relaxedAutoImplicit false
set_option autoImplicit false

namespace Groundwork

/-! ### Graphs as they are laid out -/

namespace ConstructGraph

/-- The graph of these constructs in which the first of each pair depends on the second; the pairs
take the slots in their order. -/
def laidOut (cs : List Construct) (pairs : List (Construct × Construct)) : ConstructGraph where
  vertices := .ofList (cs.map fun c => (c.ident.text, c))
  arcs := (pairs.mapIdx fun i p => ⟨p.1.ident.text, p.2.ident.text, i, {}⟩).reverse
  free := []

/-- No two constructs have the same text. -/
def Apart (cs : List Construct) : Prop :=
  ∀ c ∈ cs, ∀ d ∈ cs, c.ident.text = d.ident.text → c = d

section LaidOut

variable {cs : List Construct} {pairs : List (Construct × Construct)}

theorem get?_laidOut_eq_some_iff (h : Apart cs) {x : String} {c : Construct} :
    (laidOut cs pairs).get? x = some c ↔ c ∈ cs ∧ c.ident.text = x := by
  have hkeys : ∀ e ∈ cs.map fun c => (c.ident.text, c), ∀ f ∈ cs.map fun c => (c.ident.text, c),
      e.1 = f.1 → e = f := by
    intro e he f hf heq
    obtain ⟨c, hc, rfl⟩ := List.mem_map.1 he
    obtain ⟨d, hd, rfl⟩ := List.mem_map.1 hf
    rw [h c hc d hd heq]
  refine (Table.get?_ofList hkeys).trans ?_
  rw [List.mem_map]
  constructor
  · rintro ⟨d, hd, heq⟩
    obtain ⟨htext, rfl⟩ := Prod.mk.inj heq
    exact ⟨hd, htext⟩
  · rintro ⟨hc, rfl⟩
    exact ⟨c, hc, rfl⟩

theorem get?_laidOut (h : Apart cs) {c : Construct} (hc : c ∈ cs) :
    (laidOut cs pairs).get? c.ident.text = some c :=
  (get?_laidOut_eq_some_iff h).2 ⟨hc, rfl⟩

theorem contains_laidOut (h : Apart cs) {c : Construct} (hc : c ∈ cs) :
    (laidOut cs pairs).contains c.ident.text = true :=
  Digraph.contains_iff.2 ⟨c, get?_laidOut h hc⟩

theorem mem_values_laidOut (h : Apart cs) {c : Construct} :
    c ∈ (laidOut cs pairs).values ↔ c ∈ cs := by
  have hget (x : String) : (laidOut cs pairs).get? x = some c ↔ c ∈ cs ∧ c.ident.text = x :=
    get?_laidOut_eq_some_iff h
  refine Table.mem_values_iff.trans ⟨?_, fun hc => ⟨_, (hget _).2 ⟨hc, rfl⟩⟩⟩
  rintro ⟨x, hx⟩
  exact ((hget x).1 hx).1

theorem adj_laidOut_iff (h : Apart cs) (hpairs : ∀ p ∈ pairs, p.1 ∈ cs ∧ p.2 ∈ cs)
    {s t : Construct} (hs : s ∈ cs) (ht : t ∈ cs) :
    (laidOut cs pairs).Adj s.ident.text t.ident.text ↔ (s, t) ∈ pairs := by
  constructor
  · rintro ⟨a, ha, has, hat⟩
    obtain ⟨i, hi, rfl⟩ := List.mem_mapIdx.1 (List.mem_reverse.1 ha)
    have hmem := List.getElem_mem hi
    obtain ⟨hsource, htarget⟩ := hpairs _ hmem
    rw [← h _ hsource s hs has, ← h _ htarget t ht hat]
    exact hmem
  · intro hmem
    obtain ⟨i, hi, heq⟩ := List.mem_iff_getElem.1 hmem
    exact ⟨⟨s.ident.text, t.ident.text, i, {}⟩,
      List.mem_reverse.2 (List.mem_mapIdx.2 ⟨i, hi, by rw [heq]⟩), rfl, rfl⟩

/-- One more edge comes last, and an edge that is there is not added again. -/
theorem depend_laidOut (h : Apart cs) (hpairs : ∀ p ∈ pairs, p.1 ∈ cs ∧ p.2 ∈ cs)
    {s t : Construct} (hs : s ∈ cs) (ht : t ∈ cs) :
    (laidOut cs pairs).depend s.ident t.ident =
      laidOut cs (if (s, t) ∈ pairs then pairs else pairs ++ [(s, t)]) := by
  have hcs : (laidOut cs pairs).contains s.ident.text = true := contains_laidOut h hs
  have hct : (laidOut cs pairs).contains t.ident.text = true := contains_laidOut h ht
  have hadj := adj_laidOut_iff h hpairs hs ht
  split
  case isTrue hmem => exact Digraph.connect_empty_of_adj hcs hct (hadj.2 hmem)
  case isFalse hmem =>
      have hno := Digraph.hasEdge_eq_false_iff.2 (mt hadj.1 hmem)
      rw [depend, Digraph.connect, Digraph.connect?, hcs, hct, hno]
      simp [laidOut, Digraph.nextSlot, List.mapIdx_concat]

theorem arcsBySlot_laidOut (cs : List Construct) (pairs : List (Construct × Construct)) :
    (laidOut cs pairs).arcsBySlot =
      pairs.mapIdx fun i p => ⟨p.1.ident.text, p.2.ident.text, i, {}⟩ := by
  have hperm : (laidOut cs pairs).arcsBySlot.Perm
      (pairs.mapIdx fun i p => ⟨p.1.ident.text, p.2.ident.text, i, {}⟩) :=
    (List.mergeSort_perm _ _).trans (List.reverse_perm _)
  have hsorted :
      (laidOut cs pairs).arcsBySlot.Pairwise fun a b => decide (a.slot ≤ b.slot) = true :=
    List.pairwise_mergeSort (by simp; omega) (by simp; omega) _
  refine hperm.eq_of_pairwise ?_ (hsorted.imp of_decide_eq_true) ?_
  · intro a b ha hb hab hba
    obtain ⟨i, hi, rfl⟩ := List.mem_mapIdx.1 (hperm.mem_iff.1 ha)
    obtain ⟨j, hj, rfl⟩ := List.mem_mapIdx.1 hb
    obtain rfl : i = j := Nat.le_antisymm hab hba
    rfl
  · rw [List.pairwise_iff_getElem]
    intro i j hi hj hij
    simp only [List.getElem_mapIdx]
    omega

/-- The edges are listed as they were laid out. -/
theorem edges_laidOut (h : Apart cs) (hpairs : ∀ p ∈ pairs, p.1 ∈ cs ∧ p.2 ∈ cs) :
    (laidOut cs pairs).edges = pairs.map fun p => ⟨p.1, p.2, {}⟩ := by
  have hresolve : ∀ (i : ℕ) (p : Construct × Construct), p ∈ pairs →
      (laidOut cs pairs).resolve ⟨p.1.ident.text, p.2.ident.text, i, {}⟩ =
        some ⟨p.1, p.2, {}⟩ := by
    intro i p hp
    obtain ⟨hsource, htarget⟩ := hpairs p hp
    simp [Digraph.resolve, get?_laidOut h hsource, get?_laidOut h htarget]
  rw [Digraph.edges, arcsBySlot_laidOut, List.mapIdx_eq_zipIdx_map, List.filterMap_map]
  calc pairs.zipIdx.filterMap _
      = pairs.zipIdx.filterMap fun x => some (⟨x.1.1, x.1.2, {}⟩ : Digraph.Edge Construct Unit) :=
        List.filterMap_congr fun x hx => hresolve x.2 x.1 (List.fst_mem_of_mem_zipIdx hx)
    _ = (pairs.zipIdx.map Prod.fst).map fun p => ⟨p.1, p.2, {}⟩ := by
        rw [List.filterMap_eq_map', List.map_map]
        rfl
    _ = pairs.map fun p => ⟨p.1, p.2, {}⟩ := by rw [List.zipIdx_map_fst]

end LaidOut

end ConstructGraph

/-! ### The two passes -/

theorem eraseDups_append_singleton {α : Type} [DecidableEq α] (l : List α) (a : α) :
    (l ++ [a]).eraseDups = if a ∈ l then l.eraseDups else l.eraseDups ++ [a] := by
  rw [List.eraseDups_append]
  by_cases h : a ∈ l
  · simp [List.removeAll, h]
  · simp [List.removeAll, h, List.eraseDups_cons]

namespace Blueprint

/-- The construct that is declared under a name. -/
def named (b : Blueprint) (name : String) : Construct :=
  declared (name, (b.kinds.get? name).getD "")

/-- The constructs that an edge joins. -/
def ends (b : Blueprint) (e : EdgeSpec) : Construct × Construct :=
  (b.named e.source, b.named e.target)

/-- The constructs of the nodes. -/
def constructs (b : Blueprint) : List Construct := b.kinds.toList.map declared

/-- The graph that a sound blueprint declares. -/
def graph (b : Blueprint) : ConstructGraph := .laidOut b.constructs (b.edges.eraseDups.map b.ends)

section Names

variable {b : Blueprint}

theorem name_named (b : Blueprint) (name : String) : (b.named name).name = name := name_declared _

theorem declared_eq_named {n : String × String} (h : n ∈ b.kinds.toList) :
    declared n = b.named n.1 := by
  rw [named, Table.get?_eq_some_iff.2 h, Option.getD_some]

theorem mem_constructs_iff {c : Construct} :
    c ∈ b.constructs ↔ ∃ name, b.kinds.contains name = true ∧ c = b.named name := by
  constructor
  · intro h
    obtain ⟨n, hn, rfl⟩ := List.mem_map.1 h
    exact ⟨n.1, Table.contains_iff_exists_mem.2 ⟨n.2, hn⟩, declared_eq_named hn⟩
  · rintro ⟨name, hname, rfl⟩
    obtain ⟨kind, hn⟩ := Table.contains_iff_exists_mem.1 hname
    exact List.mem_map.2 ⟨(name, kind), hn, declared_eq_named hn⟩

theorem named_mem_constructs {name : String} (h : b.kinds.contains name = true) :
    b.named name ∈ b.constructs :=
  mem_constructs_iff.2 ⟨name, h, rfl⟩

theorem mem_constructs_of_mem_map_ends {l : List EdgeSpec}
    (h : ∀ e ∈ l, b.kinds.contains e.source = true ∧ b.kinds.contains e.target = true) :
    ∀ p ∈ l.eraseDups.map b.ends, p.1 ∈ b.constructs ∧ p.2 ∈ b.constructs := by
  intro p hp
  obtain ⟨e, he, rfl⟩ := List.mem_map.1 hp
  obtain ⟨hs, ht⟩ := h e (List.mem_eraseDups.1 he)
  exact ⟨named_mem_constructs hs, named_mem_constructs ht⟩

theorem ends_injective (b : Blueprint) : Function.Injective b.ends := by
  intro e f h
  have hsource : e.source = f.source := by
    rw [← b.name_named e.source, ← b.name_named f.source]
    exact congrArg (fun p => p.1.name) h
  have htarget : e.target = f.target := by
    rw [← b.name_named e.target, ← b.name_named f.target]
    exact congrArg (fun p => p.2.name) h
  cases e
  cases f
  cases hsource
  cases htarget
  rfl

/-- The names of a blueprint tell its constructs apart. -/
theorem apart_constructs (b : Blueprint) : ConstructGraph.Apart b.constructs := by
  intro c hc d hd htext
  obtain ⟨x, -, rfl⟩ := mem_constructs_iff.1 hc
  obtain ⟨y, -, rfl⟩ := mem_constructs_iff.1 hd
  have hname := (Construct.text_ident_eq_iff.1 htext).2
  rw [name_named, name_named] at hname
  rw [hname]

end Names

namespace Raising

/-- Sound nodes become constructs one by one. -/
theorem addNodes_eq {r : Raising} {l : List (String × String)} (h : ∀ n ∈ l, SoundNode n) :
    l.foldl (fun r n => r.addNode n.1 n.2) r =
      { r with
        graph := { r.graph with
          vertices := r.graph.vertices.insertMany (l.map fun n =>
            ((declared n).ident.text, declared n)) }
        idents := r.idents.insertMany (l.map fun n => (n.1, (declared n).ident)) } := by
  induction l generalizing r with
  | nil => rfl
  | cons n l ih =>
      rw [List.forall_mem_cons] at h
      have hstep : r.addNode n.1 n.2 = { r with
          graph := r.graph.insert (declared n)
          idents := r.idents.insert n.1 (declared n).ident } := by
        rw [addNode, construct_eq_ok_iff.2 ⟨h.1, rfl⟩]
      rw [List.foldl_cons, hstep, ih h.2]
      rfl

/-- The state after the nodes of a blueprint, if all of them are sound. -/
def ofNodes (b : Blueprint) : Raising where
  graph := .laidOut b.constructs []
  idents := .ofList (b.kinds.toList.map fun n => (n.1, (declared n).ident))

theorem get?_idents_ofNodes (b : Blueprint) {name : String} {i : Ident} :
    (ofNodes b).idents.get? name = some i ↔
      b.kinds.contains name = true ∧ i = (b.named name).ident := by
  have hkeys : ∀ e ∈ b.kinds.toList.map fun n => (n.1, (declared n).ident),
      ∀ f ∈ b.kinds.toList.map fun n => (n.1, (declared n).ident), e.1 = f.1 → e = f := by
    intro e he f hf heq
    obtain ⟨n, hn, rfl⟩ := List.mem_map.1 he
    obtain ⟨m, hm, rfl⟩ := List.mem_map.1 hf
    rw [Table.eq_of_mem_entries hn hm heq]
  refine (Table.get?_ofList hkeys).trans ?_
  rw [List.mem_map]
  constructor
  · rintro ⟨n, hn, heq⟩
    obtain ⟨rfl, rfl⟩ := Prod.mk.inj heq
    exact ⟨Table.contains_iff_exists_mem.2 ⟨n.2, hn⟩, by rw [declared_eq_named hn]⟩
  · rintro ⟨hname, rfl⟩
    obtain ⟨kind, hn⟩ := Table.contains_iff_exists_mem.1 hname
    exact ⟨(name, kind), hn, by rw [declared_eq_named hn]⟩

theorem addNodes_eq_ofNodes {b : Blueprint} (h : ∀ n ∈ b.kinds.toList, SoundNode n) :
    b.kinds.toList.foldl (fun r n => r.addNode n.1 n.2) ({} : Raising) = ofNodes b := by
  rw [addNodes_eq h, ofNodes, ConstructGraph.laidOut, constructs, List.map_map]
  rfl

theorem addEdge_of_declared {b : Blueprint} {e : EdgeSpec}
    (hsource : b.kinds.contains e.source = true) (htarget : b.kinds.contains e.target = true)
    (g : ConstructGraph) :
    ({ ofNodes b with graph := g } : Raising).addEdge e =
      { ofNodes b with graph := g.depend (b.ends e).1.ident (b.ends e).2.ident } := by
  have hs := (get?_idents_ofNodes b).2 ⟨hsource, rfl⟩
  have ht := (get?_idents_ofNodes b).2 ⟨htarget, rfl⟩
  rw [addEdge, endpoint, endpoint, hs, ht]
  rfl

/-- The edges of a sound blueprint are laid out in the order in which they are first named. -/
theorem addEdges_eq {b : Blueprint} {l : List EdgeSpec}
    (h : ∀ e ∈ l, b.kinds.contains e.source = true ∧ b.kinds.contains e.target = true) :
    l.foldl addEdge (ofNodes b) =
      { ofNodes b with graph := .laidOut b.constructs (l.eraseDups.map b.ends) } := by
  induction l using List.reverseRecOn with
  | nil => rfl
  | append_singleton l e ih =>
      have hl : ∀ e ∈ l, b.kinds.contains e.source = true ∧ b.kinds.contains e.target = true :=
        fun e he => h e (List.mem_append_left _ he)
      obtain ⟨hsource, htarget⟩ := h e (List.mem_append_right l (List.mem_singleton_self e))
      have hmem : b.ends e ∈ l.eraseDups.map b.ends ↔ e ∈ l :=
        (List.mem_map_of_injective b.ends_injective).trans List.mem_eraseDups
      have hdepend : (ConstructGraph.laidOut b.constructs (l.eraseDups.map b.ends)).depend
          (b.ends e).1.ident (b.ends e).2.ident = .laidOut b.constructs
            (if b.ends e ∈ l.eraseDups.map b.ends then l.eraseDups.map b.ends
              else l.eraseDups.map b.ends ++ [b.ends e]) :=
        ConstructGraph.depend_laidOut b.apart_constructs (mem_constructs_of_mem_map_ends hl)
          (named_mem_constructs hsource) (named_mem_constructs htarget)
      rw [List.foldl_append, ih hl, List.foldl_cons, List.foldl_nil,
        addEdge_of_declared hsource htarget, eraseDups_append_singleton]
      refine congrArg (fun g => { ofNodes b with graph := g }) (hdepend.trans ?_)
      by_cases he : e ∈ l
      · rw [if_pos he, if_pos (hmem.2 he)]
      · rw [if_neg he, if_neg (mt hmem.1 he), List.map_append]
        rfl

end Raising

/-- **A blueprint declares a graph if and only if it is sound**, and then the graph is that of its
nodes and edges. -/
theorem toGraph_eq_ok_iff {b : Blueprint} {g : ConstructGraph} :
    toGraph b = .ok g ↔ b.Sound ∧ g = b.graph := by
  have hresult (r : Raising) : r.faults.result.map (fun _ => r.graph) = .ok g ↔
      r.faults.list = [] ∧ g = r.graph := by
    rw [← Faults.result_eq_ok_iff]
    cases r.faults.result with
    | ok u => simp [Except.map, eq_comm]
    | error f => simp [Except.map]
  rw [toGraph, hresult, Raising.faults_raised, faults_eq_nil_iff]
  refine and_congr_right fun hsound => ?_
  rw [Raising.addNodes_eq_ofNodes hsound.node, Raising.addEdges_eq hsound.edge]
  rfl

end Blueprint

end Groundwork
