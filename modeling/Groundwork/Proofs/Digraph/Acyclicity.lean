/-
Graphs in which every new edge is tested.

A graph changes in four ways: vertices come and go, and edges come and go.  If no edge comes that
would close a cycle, then no cycle ever arises, whatever the order of the changes.

Main definitions:

* `Groundwork.Digraph.Edit` — one change of a graph, in which an edge comes only after the test
  for cycles;
* `Groundwork.Digraph.Edits` — several changes in turn.

Main results:

* `Groundwork.Digraph.Acyclic.connect` — an edge that passes the test closes no cycle;
* `Groundwork.Digraph.Edits.wellFormed`, `Groundwork.Digraph.Edits.acyclic` — **edits keep a graph
  well formed and free of cycles**.
-/
import Groundwork.Proofs.Digraph.Reachability

set_option relaxedAutoImplicit false
set_option autoImplicit false

namespace Groundwork.Digraph

open Relation

variable {V D : Type}

/-! ### Cycles -/

/-- Fewer edges close fewer cycles. -/
theorem Acyclic.mono {g g' : Digraph V D} (hg : g.Acyclic)
    (h : ∀ x y, g'.Adj x y → g.Adj x y) : g'.Acyclic :=
  fun v hv => hg v (TransGen.mono h v v hv)

theorem Acyclic.ne_of_adj {g : Digraph V D} (hg : g.Acyclic) {s t : String} (h : g.Adj s t) :
    s ≠ t := by
  rintro rfl
  exact hg s (TransGen.single h)

/-- A new edge gives new ways only through itself. -/
theorem leads_connect {g : Digraph V D} {s t x y : String} {p : Properties D}
    (h : (g.connect s t p).Leads x y) :
    g.Leads x y ∨ (ReflTransGen g.Adj x s ∧ ReflTransGen g.Adj t y) := by
  induction h with
  | single hxy =>
      rcases (adj_connect g s t p _ _).1 hxy with hold | ⟨rfl, rfl, -⟩
      · exact Or.inl (TransGen.single hold)
      · exact Or.inr ⟨ReflTransGen.refl, ReflTransGen.refl⟩
  | tail _ hstep ih =>
      -- of several passes through the new edge only the way to it and the way from it count
      rcases (adj_connect g s t p _ _).1 hstep with hold | ⟨rfl, rfl, -⟩
      · rcases ih with hleads | ⟨hxs, hty⟩
        · exact Or.inl (hleads.tail hold)
        · exact Or.inr ⟨hxs, hty.tail hold⟩
      · rcases ih with hleads | ⟨hxs, -⟩
        · exact Or.inr ⟨hleads.to_reflTransGen, ReflTransGen.refl⟩
        · exact Or.inr ⟨hxs, ReflTransGen.refl⟩

/-- An edge from `s` to `t` closes no cycle if `s` cannot be reached from `t`. -/
theorem Acyclic.connect {g : Digraph V D} (hg : g.Acyclic) {s t : String} (p : Properties D)
    (h : ¬ ReflTransGen g.Adj t s) : (g.connect s t p).Acyclic := by
  intro v hv
  rcases leads_connect hv with hleads | ⟨hvs, htv⟩
  · exact hg v hleads
  · exact h (htv.trans hvs)

/-! ### Changes in turn -/

/-- One change of a graph.  An edge comes only if the test finds that it closes no cycle. -/
inductive Edit : Digraph V D → Digraph V D → Prop
  | insertVertex (g : Digraph V D) (id : String) (v : V) : Edit g (g.insertVertex id v)
  | eraseVertex (g : Digraph V D) (id : String) : Edit g (g.eraseVertex id)
  | connect (g : Digraph V D) (s t : String) (p : Properties D) (h : g.createsCycle s t = false) :
      Edit g (g.connect s t p)
  | disconnect {g g' : Digraph V D} {s t : String} {p : Properties D}
      (h : g.disconnect s t = .ok (p, g')) : Edit g g'

/-- Changes in turn. -/
def Edits : Digraph V D → Digraph V D → Prop := ReflTransGen Edit

theorem Edit.wellFormed {g g' : Digraph V D} (h : Edit g g') (hg : g.WellFormed) :
    g'.WellFormed := by
  cases h with
  | insertVertex id v => exact hg.insertVertex id v
  | eraseVertex id => exact hg.eraseVertex id
  | connect s t p _ => exact hg.connect s t p
  | disconnect h => exact hg.disconnect h

theorem Edit.acyclic {g g' : Digraph V D} (h : Edit g g') (hg : g.WellFormed)
    (hacyc : g.Acyclic) : g'.Acyclic := by
  cases h with
  | insertVertex id v => exact hacyc
  | eraseVertex id => exact hacyc.mono fun x y hxy => ((adj_eraseVertex g id x y).1 hxy).1
  | connect s t p h =>
      refine hacyc.connect p fun hts => ?_
      rw [(createsCycle_iff hg s t).2 hts] at h
      cases h
  | disconnect h => exact hacyc.mono fun x y hxy => ((adj_of_disconnect h x y).1 hxy).1

namespace Edits

variable {g g' g'' : Digraph V D}

theorem refl (g : Digraph V D) : Edits g g := ReflTransGen.refl

theorem single (h : Edit g g') : Edits g g' := ReflTransGen.single h

theorem trans (h : Edits g g') (h' : Edits g' g'') : Edits g g'' := ReflTransGen.trans h h'

/-- **Edits keep a graph well formed.** -/
theorem wellFormed (h : Edits g g') (hg : g.WellFormed) : g'.WellFormed := by
  induction h with
  | refl => exact hg
  | tail _ hedit ih => exact hedit.wellFormed ih

/-- **Edits keep a graph free of cycles.** -/
theorem acyclic (h : Edits g g') (hg : g.WellFormed) (hacyc : g.Acyclic) : g'.Acyclic := by
  induction h with
  | refl => exact hacyc
  | tail hedits hedit ih => exact hedit.acyclic (wellFormed hedits hg) ih

end Edits

/-! ### The graph without vertices -/

theorem not_adj_empty (s t : String) : ¬ ({} : Digraph V D).Adj s t := by
  rintro ⟨a, ha, -⟩
  exact List.not_mem_nil ha

theorem wellFormed_empty : ({} : Digraph V D).WellFormed where
  source_mem _ ha := absurd ha List.not_mem_nil
  target_mem _ ha := absurd ha List.not_mem_nil
  simple := List.Pairwise.nil

theorem acyclic_empty : ({} : Digraph V D).Acyclic := by
  intro v hv
  obtain ⟨u, hu, -⟩ := TransGen.head'_iff.1 hv
  exact not_adj_empty v u hu

end Groundwork.Digraph
