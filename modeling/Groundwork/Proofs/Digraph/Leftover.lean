/-
What a run of the topological sort leaves over.

A list in which every vertex has its predecessors before it has all vertices that lead to its
members, so none of its members has a cycle behind it.  Conversely a vertex that is never placed
waits for another one of this kind, and going back like that ends in a cycle.  So the vertices left
over are those on a cycle and those behind one.

Main definitions:

* `Groundwork.Digraph.Grounded` — every vertex of a list has its predecessors before it.

Main results:

* `Groundwork.Digraph.Grounded.mem_of_leads`, `Groundwork.Digraph.Grounded.not_leads_self` — what
  leads to a member stands before it, and no member leads to itself;
* `Groundwork.Digraph.Placing.Sound.mem_blocked_iff` — when the run stops, the vertices that wait
  are those that are not placed;
* `Groundwork.Digraph.topologicalOrder_blocks` — **a failed sort names exactly the vertices that lie
  on a cycle or can be reached from one**.
-/
import Groundwork.Proofs.Digraph.Ordering
import Groundwork.Proofs.Digraph.Outline

set_option relaxedAutoImplicit false
set_option autoImplicit false

namespace Groundwork.Digraph

open Relation

variable {V D : Type}

/-! ### Lists that have what leads to their members -/

/-- Every vertex of the list has its predecessors before it. -/
def Grounded (g : Digraph V D) (l : List String) : Prop :=
  ∀ before x after, l = before ++ x :: after → ∀ y, g.Adj y x → y ∈ before

namespace Grounded

variable {g : Digraph V D} {l before after : List String} {x y : String}

/-- Whatever leads to a vertex stands before it. -/
theorem mem_of_leads (h : g.Grounded l) (hl : l = before ++ x :: after) (hyx : g.Leads y x) :
    y ∈ before := by
  induction hyx using TransGen.head_induction_on generalizing before after with
  | single hyx => exact h before x after hl _ hyx
  | head hyz _ ih =>
      obtain ⟨u, v, rfl⟩ := List.append_of_mem (ih hl)
      refine List.mem_append_left _ (h u _ (v ++ x :: after) ?_ _ hyz)
      rw [hl, List.append_assoc, List.cons_append]

theorem mem_of_reflTransGen (h : g.Grounded l) (hx : x ∈ l) (hyx : ReflTransGen g.Adj y x) :
    y ∈ l := by
  obtain ⟨before, after, hl⟩ := List.append_of_mem hx
  rcases reflTransGen_iff_eq_or_transGen.1 hyx with rfl | hleads
  · exact hx
  · rw [hl]
    exact List.mem_append_left _ (h.mem_of_leads hl hleads)

/-- No vertex of the list leads to itself. -/
theorem not_leads_self (h : g.Grounded l) (hnodup : l.Nodup) (hx : x ∈ l) : ¬ g.Leads x x := by
  intro hxx
  obtain ⟨before, after, hl⟩ := List.append_of_mem hx
  rw [hl] at hnodup
  exact (List.nodup_append.1 hnodup).2.2 x (h.mem_of_leads hl hxx) x List.mem_cons_self rfl

end Grounded

/-! ### Vertices that are not placed -/

namespace Placing.Sound

variable {g : Digraph V D} {p : Placing} {x v : String}

/-- A vertex with a cycle behind it is not placed. -/
theorem notMem_placed {pending : List String} (h : Sound g pending p) (hv : g.Leads v v)
    (hvx : ReflTransGen g.Adj v x) : x ∉ p.placed := by
  intro hx
  have hgrounded : g.Grounded p.placed := h.ordered
  exact hgrounded.not_leads_self h.nodup (hgrounded.mem_of_reflTransGen hx hvx) hv

/-- When the run stops, the vertices that wait are those that are not placed. -/
theorem mem_blocked_iff (h : Sound g [] p) (hready : p.ready.keys = []) :
    x ∈ p.blocked ↔ g.contains x = true ∧ x ∉ p.placed := by
  simp only [blocked, Table.mem_keys_iff, Table.contains_iff, Table.get?_filter,
    Option.filter_eq_some_iff, decide_eq_true_eq]
  constructor
  · rintro ⟨n, hwait, hpos⟩
    refine ⟨?_, fun hplaced => ?_⟩
    · by_contra hx
      rw [h.waiting x, if_neg hx] at hwait
      cases hwait
    · rw [h.settled x hplaced, Option.some_inj] at hwait
      omega
  · rintro ⟨hx, hplaced⟩
    have hwait := h.waiting x
    rw [if_pos hx] at hwait
    refine ⟨_, hwait, Nat.pos_of_ne_zero fun hzero => ?_⟩
    -- a vertex that waits for nothing would be ready
    rw [hzero] at hwait
    have hmem : x ∈ p.ready.keys := Table.mem_keys_iff.2 ((h.ready x).2 ⟨hplaced, hwait⟩)
    rw [hready] at hmem
    exact List.not_mem_nil hmem

/-- When the run stops, a vertex waits exactly if it has a cycle behind it. -/
theorem mem_blocked_iff_exists_cycle (h : Sound g [] p) (hg : g.WellFormed)
    (hready : p.ready.keys = []) :
    x ∈ p.blocked ↔ ∃ v, g.Leads v v ∧ ReflTransGen g.Adj v x := by
  rw [h.mem_blocked_iff hready]
  constructor
  · rintro ⟨hx, hplaced⟩
    exact h.exists_cycle_of_not_ready hg hready hx hplaced
  · rintro ⟨v, hv, hvx⟩
    refine ⟨?_, h.notMem_placed hv hvx⟩
    -- the last vertex of the way is the end of an edge
    have hleads : g.Leads v x := TransGen.trans_left hv hvx
    obtain ⟨w, -, hwx⟩ := TransGen.tail'_iff.1 hleads
    exact (hg.contains_of_adj hwx).2

end Placing.Sound

/-! ### Failed sorts -/

/-- **A failed sort names exactly the vertices that lie on a cycle or can be reached from one**, in
the order of their ids, and there is such a vertex. -/
theorem topologicalOrder_blocks (ops : List (Operation V D)) {f : Fault}
    (hf : (inTurn Operation.perform ops ({} : Digraph V D)).2.topologicalOrder = .error f) :
    let g := (inTurn Operation.perform ops ({} : Digraph V D)).2
    ∃ remaining, f = .cycle remaining ∧ remaining ≠ [] ∧ remaining.Pairwise (· < ·) ∧
      ∀ x, x ∈ remaining ↔ ∃ v, g.Leads v v ∧ ReflTransGen g.Adj v x := by
  intro g
  have hg : g.WellFormed := wellFormed_inTurn ops
  obtain ⟨hsound, ⟨-, hok⟩ | ⟨hleft, hready, herror⟩⟩ := g.topologicalOrder_cases
  · rw [hok] at hf
    cases hf
  · rw [herror] at hf
    refine ⟨_, (Except.error.inj hf).symm, fun hnil => hleft ?_, keys_increase _,
      fun x => hsound.mem_blocked_iff_exists_cycle hg hready⟩
    refine hsound.length_eq_order fun x hx => ?_
    by_contra hplaced
    have hmem := (hsound.mem_blocked_iff hready).2 ⟨hx, hplaced⟩
    rw [hnil] at hmem
    exact List.not_mem_nil hmem

/-- Of five vertices, the first leads into a cycle of two, the fourth can be reached from there, and
the last one has no edges. -/
def tangle : List (Operation Unit Unit) :=
  ["a", "b", "c", "d", "e"].map (fun id => .insertVertex id ()) ++
    [("a", "b"), ("b", "c"), ("c", "b"), ("c", "d")].map fun e => .connect e.1 e.2 {}

/-- The cycle and what can be reached from it are named, and neither of the other two. -/
theorem topologicalOrder_blocks_tangle :
    let g := (inTurn Operation.perform tangle ({} : Digraph Unit Unit)).2
    g.topologicalOrder = .error (.cycle ["b", "c", "d"]) ∧
      ∀ x, x ∈ ["b", "c", "d"] ↔ ∃ v, g.Leads v v ∧ ReflTransGen g.Adj v x := by
  have hf : (inTurn Operation.perform tangle ({} : Digraph Unit Unit)).2.topologicalOrder =
      .error (.cycle ["b", "c", "d"]) := rfl
  obtain ⟨remaining, heq, -, -, hmem⟩ := topologicalOrder_blocks tangle hf
  cases heq
  exact ⟨hf, hmem⟩

end Groundwork.Digraph
