/-
The order of dependencies.

An expansion goes through the dependencies in the order in which the graph lists them, which is
that in which they were added.  The vertices afterwards do not depend on it, and neither do the
edges, but for those that one chain joins and another dependency gives up: if the dependency goes
first, the chain puts it back, and if the chain comes first, it merges into the dependency and goes
with it.  What lies downstream of what is the same in any order.

Main definitions:

* `Groundwork.Site.Rearranged` — sites that differ in the order of their dependencies only.

Main results:

* `Groundwork.KnowledgeBase.removed_eq_of_rearranged`,
  `Groundwork.KnowledgeBase.joined_eq_of_rearranged` — the changes do not depend on the order;
* `Groundwork.KnowledgeBase.expand_rearranged` — **what does not depend on the order**;
* `Groundwork.KnowledgeBase.not_forall_rearranged_same_edges` — two orders with different edges.
-/
import Groundwork.Proofs.Knowledge.Rewriting

set_option relaxedAutoImplicit false
set_option autoImplicit false

namespace Groundwork

open Relation
open Groundwork.Digraph (proper)

namespace Site

/-! ### Sites that differ in the order of their dependencies -/

/-- Both sites have the same resources under the same texts, and the same dependencies with the
same payloads. -/
structure Rearranged (s t : Site) : Prop where
  /-- The resources are the same. -/
  store_eq : t.store = s.store
  /-- They are filed under the same texts. -/
  get?_eq : ∀ x, t.graph.get? x = s.graph.get? x
  /-- The dependencies and their payloads are the same. -/
  data_eq : ∀ x y, (t.graph.properties? x y).map Properties.data =
    (s.graph.properties? x y).map Properties.data

namespace Rearranged

variable {s t : Site}

theorem symm (h : s.Rearranged t) : t.Rearranged s where
  store_eq := h.store_eq.symm
  get?_eq x := (h.get?_eq x).symm
  data_eq x y := (h.data_eq x y).symm

theorem key_eq (h : s.Rearranged t) (a : Handle) : t.key a = s.key a := by
  rw [key, h.store_eq, key]

theorem contains_eq (h : s.Rearranged t) (x : String) :
    t.graph.contains x = s.graph.contains x := by
  rw [Bool.eq_iff_iff, Digraph.contains_iff, Digraph.contains_iff, h.get?_eq]

theorem adj_iff (h : s.Rearranged t) (x y : String) : t.graph.Adj x y ↔ s.graph.Adj x y := by
  rw [← Digraph.isSome_properties?_iff, ← Digraph.isSome_properties?_iff,
    ← Option.isSome_map (f := Properties.data), h.data_eq, Option.isSome_map]

/-- Walks land at the same texts. -/
theorem steps_eq (h : s.Rearranged t) (x : String) (l : List String) :
    t.steps x l = s.steps x l := by
  have hlanding (y : String) : t.landing y = s.landing y := by
    rw [landing, h.get?_eq, landing]
    cases s.graph.get? y with
    | none => rfl
    | some a => exact h.key_eq a
  induction l generalizing x with
  | nil => rfl
  | cons y l ih => rw [steps, hlanding, ih, steps]

/-- The dependencies are the same up to attributes that no expansion reads. -/
theorem exists_mem_dependencies (h : s.Rearranged t) (hs : s.graph.WellFormed)
    (ht : t.graph.WellFormed) {e : Digraph.Edge Handle Payload} (he : e ∈ s.dependencies) :
    ∃ e' ∈ t.dependencies, e'.source = e.source ∧ e'.target = e.target ∧
      e'.properties.data = e.properties.data := by
  obtain ⟨x, y, hx, hy, hp⟩ := hs.mem_edges_iff_properties?.1 he
  have hdata := h.data_eq x y
  rw [hp, Option.map_some, Option.map_eq_some_iff] at hdata
  obtain ⟨p, hp', hdata⟩ := hdata
  refine ⟨⟨e.source, e.target, p⟩, ht.mem_edges_iff_properties?.2 ⟨x, y, ?_, ?_, hp'⟩, rfl, rfl,
    hdata⟩
  · rw [h.get?_eq, hx]
  · rw [h.get?_eq, hy]

theorem filed (h : s.Rearranged t) (hs : s.Filed) : t.Filed := by
  intro x a ha
  rw [h.get?_eq] at ha
  rw [h.store_eq, h.key_eq]
  exact hs x a ha

theorem housed {K : Resource → Prop} (h : s.Rearranged t) (hs : s.Housed K) : t.Housed K := by
  intro x a ha
  rw [h.get?_eq] at ha
  rw [h.store_eq]
  exact hs x a ha

end Rearranged

end Site

namespace KnowledgeBase

variable {kb : KnowledgeBase} {defaults : EdgeData} {s t : Site}

/-! ### The changes of an expansion -/

/-- A chain depends on the ends of a dependency and on its payload only. -/
theorem Chosen.congr (h : s.Rearranged t) {e e' : Digraph.Edge Handle Payload}
    (hsource : e'.source = e.source) (htarget : e'.target = e.target)
    (hdata : e'.properties.data = e.properties.data) {path : List TypeTag}
    (hpath : kb.Chosen defaults s e path) : kb.Chosen defaults t e' path := by
  have hdataFor : dataFor defaults e' = dataFor defaults e := by rw [dataFor, hdata, dataFor]
  rw [Chosen, h.store_eq, hsource, htarget, hdataFor]
  exact hpath

theorem removed_subset_of_rearranged (h : s.Rearranged t) (hs : s.graph.WellFormed)
    (ht : t.graph.WellFormed) :
    kb.removed defaults s s.dependencies ⊆ kb.removed defaults t t.dependencies := by
  rintro x ⟨e, he, path, hpath, hmids, rfl⟩
  obtain ⟨e', he', hsource, htarget, hdata⟩ := h.exists_mem_dependencies hs ht he
  refine ⟨e', he', path, hpath.congr h hsource htarget hdata, hmids, ?_⟩
  rw [h.key_eq, h.key_eq, hsource, htarget]

theorem joined_subset_of_rearranged (h : s.Rearranged t) (hs : s.graph.WellFormed)
    (ht : t.graph.WellFormed) :
    kb.joined defaults s s.dependencies ⊆ kb.joined defaults t t.dependencies := by
  rintro x ⟨e, he, path, hpath, hx⟩
  obtain ⟨e', he', hsource, htarget, hdata⟩ := h.exists_mem_dependencies hs ht he
  refine ⟨e', he', path, hpath.congr h hsource htarget hdata, ?_⟩
  rw [h.steps_eq, h.key_eq, h.key_eq, hsource, htarget]
  exact hx

theorem removed_eq_of_rearranged (h : s.Rearranged t) (hs : s.graph.WellFormed)
    (ht : t.graph.WellFormed) :
    kb.removed defaults t t.dependencies = kb.removed defaults s s.dependencies :=
  (removed_subset_of_rearranged h.symm ht hs).antisymm (removed_subset_of_rearranged h hs ht)

theorem joined_eq_of_rearranged (h : s.Rearranged t) (hs : s.graph.WellFormed)
    (ht : t.graph.WellFormed) :
    kb.joined defaults t t.dependencies = kb.joined defaults s s.dependencies :=
  (joined_subset_of_rearranged h.symm ht hs).antisymm (joined_subset_of_rearranged h hs ht)

/-! ### What does not depend on the order -/

/-- Whatever lies downstream after one expansion does so after the other one. -/
theorem leads_of_rearranged {K : Resource → Prop} {p q : Pass}
    (hp : Underway kb defaults K s s.dependencies p)
    (hq : Underway kb defaults K t t.dependencies q) (h : s.Rearranged t)
    (hs : s.graph.WellFormed) (ht : t.graph.WellFormed) (hfiled : s.Filed) {u v : String}
    (huv : p.site.graph.Leads u v) : q.site.graph.Leads u v := by
  have hstep : ∀ x y, p.site.graph.Adj x y → q.site.graph.Leads x y := by
    intro x y hxy
    have hmem : (x, y) ∈ p.site.graph.edgeSet := hxy
    refine hq.leads (h.filed hfiled) x y ?_
    rcases hp.rewrites.upper hmem with hold | hadded
    · exact Or.inl ((h.adj_iff x y).2 hold.1)
    · rw [joined_eq_of_rearranged h hs ht]
      exact Or.inr hadded
  induction huv with
  | single hxy => exact hstep _ _ hxy
  | tail _ hxy ih => exact TransGen.trans ih (hstep _ _ hxy)

/-- **What does not depend on the order of dependencies.**  If expansions by links report nothing
in two orders, then the vertices are the same afterwards.  The edges are the same too, but for
those that a dependency with intermediates has given up and a chain has joined.  If every resource
is filed under its own text, the same resources lie downstream of the same resources. -/
theorem expand_rearranged (hkb : kb.Linking) (hs : s.Reachable) (ht : t.Reachable)
    (h : s.Rearranged t) (hhas : ∀ x a, s.graph.get? x = some a → s.store.Has a)
    (hsok : (kb.expand defaults s).2 = .ok ()) (htok : (kb.expand defaults t).2 = .ok ()) :
    let one := (kb.expand defaults s).1.graph
    let other := (kb.expand defaults t).1.graph
    (∀ x, other.contains x = one.contains x) ∧
      (∀ x y, (x, y) ∉ kb.removed defaults s s.dependencies ∩
          proper (kb.joined defaults s s.dependencies) → (other.Adj x y ↔ one.Adj x y)) ∧
      (s.Filed → ∀ u v, other.Leads u v ↔ one.Leads u v) := by
  have hhoused : s.Housed fun _ => True := fun x a ha => ⟨hhas x a ha, trivial⟩
  have hone := underway_of_ok hkb hs hhoused (fun _ _ _ _ _ _ => trivial) hsok
  have hother := underway_of_ok hkb ht (h.housed hhoused) (fun _ _ _ _ _ _ => trivial) htok
  have hremoved := @removed_eq_of_rearranged kb defaults s t h hs.wellFormed ht.wellFormed
  have hjoined := @joined_eq_of_rearranged kb defaults s t h hs.wellFormed ht.wellFormed
  intro one other
  refine ⟨fun x => ?_, fun x y hxy => ?_, fun hfiled u v => ⟨?_, ?_⟩⟩
  · have hold : t.graph.vertexSet = s.graph.vertexSet := by
      ext z
      rw [Digraph.mem_vertexSet, Digraph.mem_vertexSet, h.contains_eq]
    have hvertices : other.vertexSet = one.vertexSet := by
      refine hother.rewrites.vertices.trans ?_
      rw [hold, hjoined]
      exact hone.rewrites.vertices.symm
    rw [Bool.eq_iff_iff]
    exact Set.ext_iff.1 hvertices x
  · have hother' := hother.rewrites
    rw [hremoved, hjoined] at hother'
    have hold : (x, y) ∈ t.graph.edgeSet ↔ (x, y) ∈ s.graph.edgeSet := h.adj_iff x y
    exact (hother'.mem_edgeSet_iff hxy).trans ((or_congr (and_congr_left' hold) Iff.rfl).trans
      (hone.rewrites.mem_edgeSet_iff hxy).symm)
  · exact leads_of_rearranged hother hone h.symm ht.wellFormed hs.wellFormed (h.filed hfiled)
  · exact leads_of_rearranged hone hother h hs.wellFormed ht.wellFormed hfiled

/-! ### Two orders with different edges -/

/-- A knowledge base in which `test:a` leads to `test:b` directly and through `test:c`, and
`test:b` leads to `test:d`. -/
def bypass : KnowledgeBase :=
  let form (kind : String) : Form := { provider := "test", zero := { kind, scope := "zone" } }
  let link (kb : KnowledgeBase) (source target : String) : KnowledgeBase :=
    (kb.addForms (form source) (form target) { expand := some Expansion.link }).1
  link (link relay "a" "c") "c" "b"

/-- The constraint that a chain goes around `test:c`. -/
def around : Properties Payload :=
  { data := some (.data { constraint := { excluded := [⟨"test:c"⟩] } }) }

/-- The constraint that a chain goes through `test:c`. -/
def through : Properties Payload :=
  { data := some (.data { constraint := { required := [⟨"test:c"⟩] } }) }

/-- A resource of `test:a`, one of `test:d`, and a zero value of `test:b`. -/
def parts : Site :=
  let part (kind name : String) : Resource :=
    { ident := { provider := "test", kind, scope := "zone", name } }
  { store := ⟨#[part "a" "x", part "d" "y", part "b" ""]⟩ }

/-- The first resource depends on the second one, and then on the zero value. -/
def chainFirst : Site := ((parts.depend ⟨0⟩ ⟨1⟩ around).1.depend ⟨0⟩ ⟨2⟩ through).1

/-- The first resource depends on the zero value, and then on the second one. -/
def chainLast : Site := ((parts.depend ⟨0⟩ ⟨2⟩ through).1.depend ⟨0⟩ ⟨1⟩ around).1

theorem linking_bypass : bypass.Linking :=
  (linking_relay.addForms _ _ rfl).addForms _ _ rfl

theorem reachable_chainFirst : chainFirst.Reachable :=
  ⟨_, rfl, ((Site.Reaches.refl parts).depend ⟨0⟩ ⟨1⟩ around).depend ⟨0⟩ ⟨2⟩ through⟩

theorem reachable_chainLast : chainLast.Reachable :=
  ⟨_, rfl, ((Site.Reaches.refl parts).depend ⟨0⟩ ⟨2⟩ through).depend ⟨0⟩ ⟨1⟩ around⟩

theorem filed_chainFirst : chainFirst.Filed := by
  refine ((Site.filed_of_graph_eq_empty rfl).depend ?_ ?_ around).depend ?_ ?_ through
  all_goals decide +kernel

theorem arcs_chainFirst : chainFirst.graph.arcs =
    [⟨"test:a:zone:x", "test:b:zone", 1, through⟩,
      ⟨"test:a:zone:x", "test:d:zone:y", 0, around⟩] := rfl

theorem arcs_chainLast : chainLast.graph.arcs =
    [⟨"test:a:zone:x", "test:d:zone:y", 1, around⟩,
      ⟨"test:a:zone:x", "test:b:zone", 0, through⟩] := rfl

theorem dependencies_chainFirst :
    chainFirst.dependencies = [⟨⟨0⟩, ⟨1⟩, around⟩, ⟨⟨0⟩, ⟨2⟩, through⟩] := by
  have hslots : chainFirst.graph.arcsBySlot = [⟨"test:a:zone:x", "test:d:zone:y", 0, around⟩,
      ⟨"test:a:zone:x", "test:b:zone", 1, through⟩] := by
    rw [Digraph.arcsBySlot, arcs_chainFirst]
    simp [List.mergeSort, List.MergeSort.Internal.splitInTwo]
  rw [Site.dependencies, Digraph.edges, hslots]
  rfl

theorem dependencies_chainLast :
    chainLast.dependencies = [⟨⟨0⟩, ⟨2⟩, through⟩, ⟨⟨0⟩, ⟨1⟩, around⟩] := by
  have hslots : chainLast.graph.arcsBySlot = [⟨"test:a:zone:x", "test:b:zone", 0, through⟩,
      ⟨"test:a:zone:x", "test:d:zone:y", 1, around⟩] := by
    rw [Digraph.arcsBySlot, arcs_chainLast]
    simp [List.mergeSort, List.MergeSort.Internal.splitInTwo]
  rw [Site.dependencies, Digraph.edges, hslots]
  rfl

theorem rearranged_chains : chainFirst.Rearranged chainLast where
  store_eq := by
    rw [chainLast, chainFirst, Site.store_depend, Site.store_depend, Site.store_depend,
      Site.store_depend]
  get?_eq x := by
    have hvertices : chainLast.graph.vertices = chainFirst.graph.vertices := by decide +kernel
    rw [Digraph.get?, hvertices, Digraph.get?]
  data_eq x y := by
    -- at most one of the two dependencies joins the texts
    rw [Digraph.properties?, Digraph.arc?, arcs_chainLast, Digraph.properties?, Digraph.arc?,
      arcs_chainFirst]
    by_cases hy : "test:b:zone" = y
    · subst hy
      by_cases hx : "test:a:zone:x" = x <;> simp [Digraph.Arc.joins, hx]
    · simp only [List.find?_cons, Digraph.Arc.joins, beq_false_of_ne hy, Bool.and_false]
      cases "test:a:zone:x" == x && "test:d:zone:y" == y <;> rfl

theorem expand_chainFirst_ok : (bypass.expand {} chainFirst).2 = .ok () := by
  have hquiet : (bypass.expandPass {} chainFirst).Quiet := by
    rw [expandPass, dependencies_chainFirst]
    exact List.isEmpty_iff.1 (by decide +kernel)
  exact hquiet.result

theorem expand_chainLast_ok : (bypass.expand {} chainLast).2 = .ok () := by
  have hquiet : (bypass.expandPass {} chainLast).Quiet := by
    rw [expandPass, dependencies_chainLast]
    exact List.isEmpty_iff.1 (by decide +kernel)
  exact hquiet.result

/-- The last dependency takes the link of the first one with it. -/
theorem not_adj_chainFirst :
    ¬ (bypass.expand {} chainFirst).1.graph.Adj "test:a:zone:x" "test:b:zone" := by
  refine Digraph.hasEdge_eq_false_iff.1 ?_
  rw [expand, expandPass, dependencies_chainFirst]
  decide +kernel

/-- The last dependency puts its link where the first one was. -/
theorem adj_chainLast :
    (bypass.expand {} chainLast).1.graph.Adj "test:a:zone:x" "test:b:zone" := by
  refine Digraph.hasEdge_iff.1 ?_
  rw [expand, expandPass, dependencies_chainLast]
  decide +kernel

/-- The vertices are the same in both orders, and so is what lies downstream. -/
theorem expand_rearranged_chains :
    let one := (bypass.expand {} chainFirst).1.graph
    let other := (bypass.expand {} chainLast).1.graph
    other.contains "test:c:zone" = one.contains "test:c:zone" ∧
      one.Leads "test:a:zone:x" "test:b:zone" := by
  intro one other
  have hhas : ∀ x a, chainFirst.graph.get? x = some a → chainFirst.store.Has a :=
    fun x a ha => (filed_chainFirst x a ha).1
  obtain ⟨hcontains, -, hleads⟩ := expand_rearranged linking_bypass reachable_chainFirst
    reachable_chainLast rearranged_chains hhas expand_chainFirst_ok expand_chainLast_ok
  exact ⟨hcontains _, (hleads filed_chainFirst _ _).1 (TransGen.single adj_chainLast)⟩

/-- The edges can depend on the order of dependencies. -/
theorem not_forall_rearranged_same_edges :
    ¬ ∀ (kb : KnowledgeBase) (defaults : EdgeData) (s t : Site), kb.Linking → s.Reachable →
      t.Reachable → s.Rearranged t → (∀ x a, s.graph.get? x = some a → s.store.Has a) →
      (kb.expand defaults s).2 = .ok () → (kb.expand defaults t).2 = .ok () →
      (∀ x, (kb.expand defaults t).1.graph.contains x = (kb.expand defaults s).1.graph.contains x) ∧
        ∀ x y, (kb.expand defaults t).1.graph.Adj x y ↔ (kb.expand defaults s).1.graph.Adj x y := by
  intro hsame
  obtain ⟨-, hedges⟩ := hsame bypass {} chainFirst chainLast linking_bypass reachable_chainFirst
    reachable_chainLast rearranged_chains (fun x a ha => (filed_chainFirst x a ha).1)
    expand_chainFirst_ok expand_chainLast_ok
  exact not_adj_chainFirst ((hedges _ _).1 adj_chainLast)

end KnowledgeBase

end Groundwork
