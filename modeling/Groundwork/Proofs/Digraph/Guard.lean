/-
The guard against cycles, beside the other walks.

Three walks answer the same question in ways of their own: the guard asks whether the end of a new
edge leads back to its start, the search looks for a path between them, and sorting finds out
whether all vertices can be placed.  All of them come down to which vertices can be reached, so
that they never contradict one another.  Nothing of this hangs on how the guard looks for a way
back: any test that is right about vertices gives the same guard.

Main definitions:

* `Groundwork.Digraph.TestsPaths` — a test that is right about which vertices can be reached;
* `Groundwork.Digraph.guard` — the guard against cycles that relies on such a test.

Main results:

* `Groundwork.Digraph.WellFormed.guard_iff` — the guard is exact with every such test;
* `Groundwork.Digraph.WellFormed.exists_topologicalOrder_iff` — a graph can be sorted exactly if it
  has no cycle;
* `Groundwork.Digraph.acyclic_connect_iff` — which edges leave a graph without cycles;
* `Groundwork.Digraph.createsCycle_agrees` — **the guard agrees with the search for a path and with
  sorting**.
-/
import Groundwork.Proofs.Digraph.LeastOrder
import Groundwork.Proofs.Digraph.ShortestPath

set_option relaxedAutoImplicit false
set_option autoImplicit false

namespace Groundwork.Digraph

open Relation

variable {V D : Type} {g : Digraph V D}

/-! ### Tests for paths -/

/-- The test tells of any two vertices whether the second can be reached from the first. -/
def TestsPaths (g : Digraph V D) (test : String → String → Bool) : Prop :=
  ∀ x y, g.contains x = true → g.contains y = true →
    (test x y = true ↔ ReflTransGen g.Adj x y)

/-- Whether an edge from `s` to `t` would close a cycle, as far as a test for paths can tell. -/
def guard (g : Digraph V D) (test : String → String → Bool) (s t : String) : Bool :=
  s == t || (g.contains s && g.contains t && test t s)

/-- A walk is such a test. -/
theorem WellFormed.testsPaths_sweep (hg : g.WellFormed) :
    g.TestsPaths fun x y => (g.sweep .outgoing x).contains y := by
  intro x y _ _
  rw [List.contains_iff_mem, hg.mem_sweep_iff]
  rfl

/-- **The guard is exact with every test for paths.** -/
theorem WellFormed.guard_iff (hg : g.WellFormed) {test : String → String → Bool}
    (htest : g.TestsPaths test) (s t : String) :
    g.guard test s t = true ↔ ReflTransGen g.Adj t s := by
  rw [guard, Bool.or_eq_true, beq_iff_eq, Bool.and_eq_true, Bool.and_eq_true]
  constructor
  · rintro (rfl | ⟨⟨hs, ht⟩, hpath⟩)
    · exact ReflTransGen.refl
    · exact (htest t s ht hs).1 hpath
  · intro hts
    by_cases hst : s = t
    · exact Or.inl hst
    · obtain ⟨ht, hs⟩ := hg.contains_of_reflTransGen (Ne.symm hst) hts
      exact Or.inr ⟨⟨hs, ht⟩, (htest t s ht hs).2 hts⟩

/-- The guard of the graph is the one that relies on a walk, and every other one says the same. -/
theorem WellFormed.guard_eq_createsCycle (hg : g.WellFormed) {test : String → String → Bool}
    (htest : g.TestsPaths test) (s t : String) : g.guard test s t = g.createsCycle s t := by
  rw [Bool.eq_iff_iff, hg.guard_iff htest, createsCycle_iff hg]

/-! ### Sorting -/

/-- A graph can be sorted exactly if it has no cycle. -/
theorem WellFormed.exists_topologicalOrder_iff (hg : g.WellFormed) :
    (∃ order, g.topologicalOrder = .ok order) ↔ g.Acyclic := by
  constructor
  · rintro ⟨order, horder⟩
    exact (least_of_topologicalOrder hg horder).1.acyclic hg
  · intro hacyc
    obtain ⟨order, -, horder⟩ := hacyc.exists_orders hg
    exact ⟨order, horder⟩

/-- A graph without cycles stays so with an edge from `s` to `t` exactly if `t` does not lead back
to `s`.  It does not matter whether this edge was there before. -/
theorem acyclic_connect_iff (hacyc : g.Acyclic) {s t : String} (p : Properties D)
    (hs : g.contains s = true) (ht : g.contains t = true) :
    (g.connect s t p).Acyclic ↔ ¬ ReflTransGen g.Adj t s := by
  constructor
  · intro hafter hts
    have hback : ReflTransGen (g.connect s t p).Adj t s :=
      ReflTransGen.mono (fun x y hxy => (adj_connect g s t p x y).2 (Or.inl hxy)) _ _ hts
    have hedge : (g.connect s t p).Adj s t :=
      (adj_connect g s t p s t).2 (Or.inr ⟨rfl, rfl, hs, ht⟩)
    exact hafter s (TransGen.head' hedge hback)
  · exact hacyc.connect p

/-! ### The three walks -/

/-- **The guard agrees with the search for a path and with sorting**, in every graph that arises by
any operations.  It answers what every exact test for paths would make it answer; for two different
ids it answers whether there is a path back; and where the vertices can be sorted, they can still be
sorted after an edge was added exactly if the guard let it pass. -/
theorem createsCycle_agrees (ops : List (Operation V D)) (s t : String) :
    let g := (inTurn Operation.perform ops ({} : Digraph V D)).2
    (∀ test, g.TestsPaths test → g.guard test s t = g.createsCycle s t) ∧
    (s ≠ t → (g.createsCycle s t = true ↔ ∃ path, g.shortestPath t s = some path)) ∧
    (g.contains s = true → g.contains t = true → (∃ order, g.topologicalOrder = .ok order) →
      ∀ p, ∃ g', g.connect? s t p = some g' ∧
        ((∃ order, g'.topologicalOrder = .ok order) ↔ g.createsCycle s t = false)) := by
  intro g
  have hg : g.WellFormed := wellFormed_inTurn ops
  refine ⟨fun test htest => hg.guard_eq_createsCycle htest s t, fun hst => ?_,
    fun hs ht hsorted p => ?_⟩
  · rw [createsCycle_iff hg, ← Option.isSome_iff_exists, hg.isSome_shortestPath_iff]
    constructor
    · intro hts
      obtain ⟨ht, hs⟩ := hg.contains_of_reflTransGen (Ne.symm hst) hts
      exact ⟨ht, hs, hts⟩
    · exact fun h => h.2.2
  · have hends : (g.connect? s t p).isSome = true := by
      rw [isSome_connect?, hs, ht]
      rfl
    obtain ⟨g', hg'⟩ := Option.isSome_iff_exists.1 hends
    have hconnect : g' = g.connect s t p := by rw [connect, hg', Option.getD_some]
    have hacyc : g.Acyclic := hg.exists_topologicalOrder_iff.1 hsorted
    refine ⟨g', hg', ?_⟩
    rw [hconnect, (hg.connect s t p).exists_topologicalOrder_iff, acyclic_connect_iff hacyc p hs ht,
      ← createsCycle_iff hg, Bool.not_eq_true]

/-- Two vertices in a row. -/
def pair : List (Operation Unit Unit) :=
  [.insertVertex "a" (), .insertVertex "b" (), .connect "a" "b" {}]

/-- The edge back would close a cycle and is found out, by the graph and by a guard that walks along
the edges, while the edge that is there may be added once more. -/
theorem createsCycle_agrees_pair :
    let g := (inTurn Operation.perform pair ({} : Digraph Unit Unit)).2
    let walk := fun x y => (g.sweep .outgoing x).contains y
    g.TestsPaths walk ∧ g.guard walk "b" "a" = true ∧ g.guard walk "a" "b" = false ∧
      g.createsCycle "b" "a" = true ∧ (∃ path, g.shortestPath "a" "b" = some path) ∧
      (∃ g', g.connect? "b" "a" {} = some g' ∧ ¬ ∃ order, g'.topologicalOrder = .ok order) ∧
      ∃ g', g.connect? "a" "b" {} = some g' ∧ ∃ order, g'.topologicalOrder = .ok order := by
  intro g walk
  have hwalk : g.TestsPaths walk := (wellFormed_inTurn pair).testsPaths_sweep
  have hsorted : (inTurn Operation.perform pair ({} : Digraph Unit Unit)).2.topologicalOrder =
      .ok ["a", "b"] := rfl
  have hguard : g.createsCycle "b" "a" = true := by decide
  have hfree : g.createsCycle "a" "b" = false := by decide
  obtain ⟨htests, hpath, hback⟩ := createsCycle_agrees pair "b" "a"
  obtain ⟨htests', -, hagain⟩ := createsCycle_agrees pair "a" "b"
  obtain ⟨g₁, hg₁, hiff₁⟩ := hback (by decide) (by decide) ⟨_, hsorted⟩ {}
  obtain ⟨g₂, hg₂, hiff₂⟩ := hagain (by decide) (by decide) ⟨_, hsorted⟩ {}
  refine ⟨hwalk, (htests walk hwalk).trans hguard, (htests' walk hwalk).trans hfree, hguard,
    (hpath (by decide)).1 hguard, ⟨g₁, hg₁, fun h => ?_⟩, g₂, hg₂, hiff₂.2 hfree⟩
  exact absurd (hguard.symm.trans (hiff₁.1 h)) (by decide)

end Groundwork.Digraph
