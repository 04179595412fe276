/-
The least topological order.

Whenever a vertex is placed, any topological order that agrees with the placed vertices so far goes
on with a vertex that is ready as well, since all its predecessors are placed.  The least one of
these is taken, so the order that comes out is less than every other one.

Main definitions:

* `Groundwork.Digraph.Course` — the states of a run, one for each edge that is worked off;
* `Groundwork.Digraph.Placing.Ahead` — what is placed is the beginning of a list, or comes before it
  whatever is placed next.

Main results:

* `Groundwork.Digraph.Course.waiting_pos` — a counter is lowered only where it is not zero;
* `Groundwork.Digraph.Placing.Ahead.step`, `Groundwork.Digraph.Placing.Ahead.run` — a step and a run
  stay ahead of every topological order;
* `Groundwork.Digraph.topologicalOrder_least` — **sorting succeeds exactly without cycles, and gives
  the least topological order**.
-/
import Groundwork.Proofs.Digraph.Leftover

set_option relaxedAutoImplicit false
set_option autoImplicit false

namespace Groundwork.Digraph

open Relation

variable {V D : Type} {g : Digraph V D} {p p' : Placing} {order other : List String}

/-! ### Counters -/

/-- The states of a run, with the ends of the edges that are still to be worked off. -/
inductive Course (g : Digraph V D) : List String → Placing → Prop
  | start : Course g [] (Placing.start g)
  /-- The first of the ready vertices is placed. -/
  | place {p : Placing} {x : String} {rest : List String} (hkeys : p.ready.keys = x :: rest) :
      Course g [] p → Course g (g.adjacent .outgoing x)
        { p with ready := p.ready.erase x, placed := p.placed ++ [x] }
  /-- An edge is worked off, and the counter of its end is lowered. -/
  | release {p : Placing} {x : String} {pending : List String} :
      Course g (x :: pending) p → Course g pending (p.release x)

namespace Course

theorem releaseAll {pending : List String} (h : Course g pending p) :
    Course g [] (pending.foldl Placing.release p) := by
  induction pending generalizing p with
  | nil => exact h
  | cons x pending ih => exact ih h.release

/-- The states after each number of steps are among them. -/
theorem run (n : ℕ) (h : Course g [] p) : Course g [] (p.run g n) := by
  induction n generalizing p with
  | zero => exact h
  | succ n ih =>
      rw [Placing.run]
      split
      case h_1 => exact h
      case h_2 p' hstep =>
          obtain ⟨x, rest, hkeys, rfl⟩ := Placing.exists_of_step hstep
          exact ih (h.place hkeys).releaseAll

theorem sound {pending : List String} (h : Course g pending p) : Placing.Sound g pending p := by
  induction h with
  | start => exact Placing.Sound.start g
  | place hkeys _ ih => exact ih.place (Placing.contains_ready_of_keys hkeys)
  | release _ ih => exact ih.release

/-- The vertices at the ends of the edges that are worked off are there. -/
theorem contains_of_mem {pending : List String} (hg : g.WellFormed) (h : Course g pending p)
    {x : String} (hx : x ∈ pending) : g.contains x = true := by
  induction h with
  | start => exact absurd hx List.not_mem_nil
  | place _ _ _ => exact (hg.contains_of_adj (mem_adjacent_outgoing.1 hx)).2
  | release _ ih => exact ih (List.mem_cons_of_mem _ hx)

/-- A counter is lowered only where it is not zero. -/
theorem waiting_pos {x : String} {pending : List String} (hg : g.WellFormed)
    (h : Course g (x :: pending) p) : ∃ n, p.waiting.get? x = some (n + 1) := by
  have hwait := h.sound.waiting x
  rw [if_pos (h.contains_of_mem hg List.mem_cons_self), List.count_cons_self, ← Nat.add_assoc]
    at hwait
  exact ⟨_, hwait⟩

end Course

/-! ### Topological orders -/

namespace Orders

theorem nodup (h : g.Orders order) : order.Nodup := h.perm.nodup_iff.2 g.vertices.keys_nodup

theorem grounded (h : g.Orders order) : g.Grounded order := by
  rintro before x after rfl y hyx
  -- after `x` there is no second `x` for the edge to lead to
  have hafter : x ∉ after := (List.nodup_cons.1 (List.nodup_append.1 h.nodup).2.1).1
  obtain ⟨l₁, l₂, heq, hl₁, hl₂⟩ := List.sublist_append_iff.1 (h.before y x hyx)
  cases l₁ with
  | nil =>
      rw [List.nil_append] at heq
      rw [← heq, List.cons_sublist_cons'] at hl₂
      refine absurd ?_ hafter
      rcases hl₂ with hl₂ | ⟨-, hl₂⟩
      · exact hl₂.subset (by simp)
      · exact hl₂.subset (by simp)
  | cons a l₁ =>
      obtain rfl := (List.cons.inj heq).1
      exact hl₁.subset List.mem_cons_self

theorem acyclic (hg : g.WellFormed) (h : g.Orders order) : g.Acyclic := by
  intro v hv
  obtain ⟨w, hvw, -⟩ := TransGen.head'_iff.1 hv
  have hmem : v ∈ order := h.perm.mem_iff.2 (mem_ids_iff.2 (hg.contains_of_adj hvw).1)
  exact h.grounded.not_leads_self h.nodup hmem hv

end Orders

/-! ### The least order -/

namespace Placing

/-- What is placed is the beginning of `other`, or comes before it whatever is placed next. -/
def Ahead (p : Placing) (other : List String) : Prop :=
  p.placed <+: other ∨ ∀ rest, p.placed ++ rest < other

/-- Where a topological order goes on from the placed vertices, the next one is ready. -/
theorem Sound.ready_of_orders (h : Sound g [] p) {y : String} {tail : List String}
    (hother : g.Orders (p.placed ++ y :: tail)) : p.ready.contains y = true := by
  have hnew : y ∉ p.placed := fun hy =>
    (List.nodup_append.1 hother.nodup).2.2 y hy y List.mem_cons_self rfl
  have hy : g.contains y = true := mem_ids_iff.1 (hother.perm.mem_iff.1 (by simp))
  have hdue : g.due p.placed y = 0 := due_eq_zero_iff.2 (hother.grounded p.placed y tail rfl)
  refine (h.ready y).2 ⟨hnew, ?_⟩
  rw [h.waiting y, if_pos hy, hdue]
  rfl

/-- The first of the ready vertices is the least one. -/
theorem le_of_ready {x y : String} {rest : List String} (hkeys : p.ready.keys = x :: rest)
    (hy : p.ready.contains y = true) : x ≤ y := by
  have hsorted := keys_increase p.ready
  rw [← Table.mem_keys_iff, hkeys] at hy
  rw [hkeys] at hsorted
  rcases List.mem_cons.1 hy with rfl | hy
  · exact le_rfl
  · exact ((List.pairwise_cons.1 hsorted).1 y hy).le

/-- A step stays ahead of every topological order. -/
theorem Ahead.step (hp : p.Ahead other) (h : Sound g [] p) (hother : g.Orders other)
    (hstep : p.step g = some p') : p'.Ahead other := by
  obtain ⟨x, rest, hkeys, rfl⟩ := exists_of_step hstep
  have hready : p.ready.contains x = true := contains_ready_of_keys hkeys
  rw [Ahead, placed_releaseAll]
  dsimp only
  rcases hp with ⟨tail, rfl⟩ | hless
  · have hx : x ∈ p.placed ++ tail :=
      hother.perm.mem_iff.2 (mem_ids_iff.2 (h.contains_of_ready hready))
    cases tail with
    | nil => exact absurd (by simpa using hx) ((h.ready x).1 hready).1
    | cons y tail =>
        -- both go on with a ready vertex, and the step takes the least one
        rcases (le_of_ready hkeys (h.ready_of_orders hother)).eq_or_lt with rfl | hlt
        · exact Or.inl ⟨tail, by simp⟩
        · refine Or.inr fun w => ?_
          rw [List.append_assoc, List.singleton_append]
          exact List.append_left_lt (List.cons_lt_cons_iff.2 (Or.inl hlt))
  · refine Or.inr fun w => ?_
    rw [List.append_assoc]
    exact hless _

/-- A run stays ahead of every topological order. -/
theorem Ahead.run (n : ℕ) (hp : p.Ahead other) (h : Sound g [] p) (hother : g.Orders other) :
    (p.run g n).Ahead other := by
  induction n generalizing p with
  | zero => exact hp
  | succ n ih =>
      rw [Placing.run]
      split
      case h_1 => exact hp
      case h_2 p' hstep => exact ih (hp.step h hother hstep) (h.step hstep).1

/-- A topological order that is ahead of another one is no greater. -/
theorem Ahead.le (hp : p.Ahead other) (hplaced : g.Orders p.placed) (hother : g.Orders other) :
    p.placed ≤ other := by
  rcases hp with hfront | hless
  · exact (hfront.eq_of_length (hplaced.perm.trans hother.perm.symm).length_eq).le
  · have hlt := hless []
    rw [List.append_nil] at hlt
    exact hlt.le

end Placing

/-- What sorting gives is a topological order, and no other one is less. -/
theorem least_of_topologicalOrder (hg : g.WellFormed) (hok : g.topologicalOrder = .ok order) :
    g.Orders order ∧ ∀ other, g.Orders other → order ≤ other := by
  obtain ⟨hsound, ⟨hall, hplaced⟩ | ⟨-, -, herror⟩⟩ := g.topologicalOrder_cases
  · obtain rfl := Except.ok.inj (hplaced.symm.trans hok)
    have horders := hsound.orders hall hg
    refine ⟨horders, fun other hother => ?_⟩
    have hstart : (Placing.start g).Ahead other := Or.inl List.nil_prefix
    exact (hstart.run g.order (Placing.Sound.start g) hother).le horders hother
  · rw [herror] at hok
    cases hok

/-- **Sorting succeeds exactly without cycles, and gives the least topological order.**  The run
goes through the states of its course, and no counter in them falls below zero. -/
theorem topologicalOrder_least (ops : List (Operation V D)) :
    let g := (inTurn Operation.perform ops ({} : Digraph V D)).2
    ((∃ order, g.topologicalOrder = .ok order) ↔ g.Acyclic) ∧
      (∀ order, g.topologicalOrder = .ok order ↔
        g.Orders order ∧ ∀ other, g.Orders other → order ≤ other) ∧
      (∀ n, Course g [] ((Placing.start g).run g n)) ∧
      ∀ x pending p, Course g (x :: pending) p → ∃ n, p.waiting.get? x = some (n + 1) := by
  intro g
  have hg : g.WellFormed := wellFormed_inTurn ops
  refine ⟨⟨?_, fun hacyc => ?_⟩, fun order => ⟨least_of_topologicalOrder hg, ?_⟩,
    fun n => Course.start.run n, fun x pending p h => h.waiting_pos hg⟩
  · rintro ⟨order, horder⟩
    exact (least_of_topologicalOrder hg horder).1.acyclic hg
  · obtain ⟨order, -, horder⟩ := hacyc.exists_orders hg
    exact ⟨order, horder⟩
  · rintro ⟨horders, hleast⟩
    obtain ⟨order', -, horder'⟩ := (horders.acyclic hg).exists_orders hg
    obtain ⟨horders', hleast'⟩ := least_of_topologicalOrder hg horder'
    rw [horder', le_antisymm (hleast order' horders') (hleast' order horders)]

end Groundwork.Digraph
