/-
What a walk in a directed graph finds.

A walk keeps the vertices that it has found in the order of their discovery: first those that it
has left already, then its queue.  It enters a vertex once, so each step uses up the edges at one
vertex, and a walk that may take one step more than the graph has edges comes to its end.

Main definitions:

* `Groundwork.Digraph.Steps` — one step in a direction, along an edge or against it;
* `Groundwork.Digraph.Walks` — the loop of a walk, without a bound on its steps;
* `Groundwork.Digraph.ahead` — the number of edges at the vertices that a walk has not left yet.

Main results:

* `Groundwork.Digraph.Walks.layered` — a walk keeps to the order of distances;
* `Groundwork.Digraph.WellFormed.walks_sweep` — the loop ends, and the walk finds what it finds;
* `Groundwork.Digraph.WellFormed.mem_sweep_iff` — **a walk finds exactly what can be reached from
  its start**;
* `Groundwork.Digraph.createsCycle_iff` — **the test for cycles is exact**: an edge from `s` to `t`
  would close a cycle if and only if `s` can be reached from `t`.
-/
import Groundwork.Digraph.Walk
import Groundwork.Proofs.Digraph.Adjacency
import Groundwork.Proofs.Digraph.Distance

set_option relaxedAutoImplicit false
set_option autoImplicit false

namespace Groundwork.Digraph

open Relation

variable {V D : Type}

/-! ### Steps -/

/-- One step in a direction, along an edge or against it. -/
def Steps (g : Digraph V D) : Direction → String → String → Prop
  | .outgoing, x, y => g.Adj x y
  | .incoming, x, y => g.Adj y x

theorem mem_adjacent_iff {g : Digraph V D} {d : Direction} {x y : String} :
    y ∈ g.adjacent d x ↔ g.Steps d x y := by
  cases d with
  | outgoing => exact mem_adjacent_outgoing
  | incoming =>
      simp only [adjacent, arcsAt, Arc.near, Arc.far, Steps, Adj, List.mem_map, List.mem_filter,
        beq_iff_eq]
      constructor
      · rintro ⟨a, ⟨ha, ht⟩, hs⟩
        exact ⟨a, ha, hs, ht⟩
      · rintro ⟨a, ha, hs, ht⟩
        exact ⟨a, ⟨ha, ht⟩, hs⟩

/-! ### The loop of a walk -/

/-- With the vertices of a queue still to leave and these vertices found, the loop of a walk ends,
and has found the vertices of a third list. -/
inductive Walks (next : String → List String) : List String → List String → List String → Prop
  | ended (found : List String) : Walks next [] found found
  /-- The first vertex of the queue is left, and the new ones next to it are found. -/
  | leave {v : String} {queue found result : List String} :
      Walks next (queue ++ (next v).filter (· ∉ found)) (found ++ (next v).filter (· ∉ found))
        result →
      Walks next (v :: queue) found result

namespace Walks

variable {next : String → List String} {queue found result : List String}

/-- What is found stays found, and stays in its place. -/
theorem exists_append (h : Walks next queue found result) : ∃ more, result = found ++ more := by
  induction h with
  | ended found => exact ⟨[], (List.append_nil found).symm⟩
  | leave _ ih =>
      obtain ⟨more, hmore⟩ := ih
      exact ⟨_, hmore.trans (List.append_assoc _ _ _)⟩

/-- **A walk keeps to the order of distances.** -/
theorem layered {r : String → String → Prop} {s : String} (done : List String)
    (hnext : ∀ x, (next x).Nodup) (hmem : ∀ x y, y ∈ next x ↔ r x y)
    (h : Walks next queue found result) (hfound : found = done ++ queue)
    (hlayered : Layered r s done queue) : Layered r s result [] := by
  induction h generalizing done with
  | ended found =>
      rw [List.append_nil] at hfound
      exact hfound ▸ hlayered
  | @leave v queue found result _ ih =>
      subst hfound
      refine ih (done ++ [v]) (by simp) (hlayered.leave ((hnext v).filter _) fun x => ?_)
      rw [List.mem_filter, hmem, decide_eq_true_iff]

end Walks

/-! ### The length of a walk -/

/-- The number of edges at the vertices that are not in `done`. -/
def ahead (g : Digraph V D) (d : Direction) (done : List String) : ℕ :=
  (g.arcs.filter fun a => a.near d ∉ done).length

theorem ahead_le_size (g : Digraph V D) (d : Direction) (done : List String) :
    g.ahead d done ≤ g.size :=
  List.length_filter_le _ _

/-- Of the entries whose key is not in `done`, those with the key `v` are the ones that drop out
when `v` is done. -/
theorem length_filter_notMem_append {α : Type} (l : List α) (key : α → String) {v : String}
    {done : List String} (hv : v ∉ done) :
    (l.filter fun a => key a ∉ done ++ [v]).length + (l.filter fun a => key a == v).length =
      (l.filter fun a => key a ∉ done).length := by
  have hat : (l.filter fun a => key a ∉ done).filter (fun a => key a == v) =
      l.filter fun a => key a == v := by
    rw [List.filter_filter]
    refine List.filter_congr fun a _ => ?_
    by_cases ha : key a = v
    · simp [ha, hv]
    · simp [ha]
  have hrest : (l.filter fun a => key a ∉ done).filter (fun a => !(key a == v)) =
      l.filter fun a => key a ∉ done ++ [v] := by
    rw [List.filter_filter]
    refine List.filter_congr fun a _ => ?_
    by_cases ha : key a = v <;> simp [ha]
  have hsplit := List.length_eq_length_filter_add (l := l.filter fun a => key a ∉ done)
    (fun a => key a == v)
  rw [hat, hrest] at hsplit
  omega

/-- Leaving a vertex for the first time uses up the edges at it. -/
theorem ahead_append_singleton (g : Digraph V D) (d : Direction) {v : String} {done : List String}
    (hv : v ∉ done) : g.ahead d (done ++ [v]) + (g.adjacent d v).length = g.ahead d done := by
  rw [adjacent, List.length_map]
  exact length_filter_notMem_append g.arcs (Arc.near d) hv

/-- The edges at a vertex pay for those next to it that come into the queue when it is left. -/
theorem length_append_add_ahead_le (g : Digraph V D) (d : Direction) {v : String}
    {queue done new : List String} {n : ℕ} (hv : v ∉ done)
    (hnew : new.length ≤ (g.adjacent d v).length)
    (hn : (v :: queue).length + g.ahead d done ≤ n + 1) :
    (queue ++ new).length + g.ahead d (done ++ [v]) ≤ n := by
  have hahead := ahead_append_singleton g d hv
  rw [List.length_cons] at hn
  rw [List.length_append]
  omega

/-- The vertices that are left, those of the queue and the new ones differ. -/
theorem WellFormed.nodup_append_filter {g : Digraph V D} (hg : g.WellFormed) (d : Direction)
    (v : String) {found : List String} (hfound : found.Nodup) :
    (found ++ (g.adjacent d v).filter (· ∉ found)).Nodup := by
  refine List.nodup_append.2 ⟨hfound, (hg.adjacent_nodup d v).filter _, ?_⟩
  rintro x hx y hy rfl
  exact of_decide_eq_true (List.mem_filter.1 hy).2 hx

/-- A walk with steps enough for its queue and for the edges still ahead comes to the end of its
loop.  The vertices found are those of `done`, which it has left, and those of its queue. -/
theorem WellFormed.walks_sweepFrom {g : Digraph V D} (hg : g.WellFormed) (d : Direction) (n : ℕ)
    (queue done : List String) (hn : queue.length + g.ahead d done ≤ n)
    (hnodup : (done ++ queue).Nodup) :
    Walks (g.adjacent d) queue (done ++ queue)
      (sweepFrom (g.adjacent d) n queue (done ++ queue)) := by
  induction n generalizing queue done with
  | zero =>
      have hqueue : queue = [] := List.length_eq_zero_iff.1 (by omega)
      subst hqueue
      exact .ended _
  | succ n ih =>
      cases queue with
      | nil => exact .ended _
      | cons v queue =>
          have hv : v ∉ done := by
            intro hmem
            exact (List.nodup_append.1 hnodup).2.2 v hmem v List.mem_cons_self rfl
          have hshift (new : List String) :
              done ++ v :: queue ++ new = (done ++ [v]) ++ (queue ++ new) := by simp
          refine .leave ?_
          rw [sweepFrom, hshift]
          refine ih _ _ (length_append_add_ahead_le g d hv (List.length_filter_le _ _) hn) ?_
          rw [← hshift]
          exact hg.nodup_append_filter d v hnodup

/-- The loop ends, and the walk finds what it finds. -/
theorem WellFormed.walks_sweep {g : Digraph V D} (hg : g.WellFormed) (d : Direction) (id : String) :
    Walks (g.adjacent d) [id] [id] (g.sweep d id) :=
  hg.walks_sweepFrom d (g.size + 1) [id] [] (by simp [ahead_le_size, Nat.add_comm]) (by simp)

/-! ### Everything that a walk finds -/

/-- A walk finds its vertices in the order of their distances. -/
theorem WellFormed.layered_sweep {g : Digraph V D} (hg : g.WellFormed) (d : Direction)
    (id : String) : Layered (g.Steps d) id (g.sweep d id) [] :=
  (hg.walks_sweep d id).layered [] (fun x => hg.adjacent_nodup d x) (fun _ _ => mem_adjacent_iff)
    rfl (Layered.start _ id)

/-- **A walk finds exactly what can be reached from its start.** -/
theorem WellFormed.mem_sweep_iff {g : Digraph V D} (hg : g.WellFormed) {d : Direction}
    {id x : String} : x ∈ g.sweep d id ↔ ReflTransGen (g.Steps d) id x :=
  (hg.layered_sweep d id).mem_iff

/-- A vertex that leads anywhere, or that anything leads to, is there. -/
theorem WellFormed.contains_of_reflTransGen {g : Digraph V D} (hg : g.WellFormed) {s t : String}
    (hne : s ≠ t) (h : ReflTransGen g.Adj s t) : g.contains s = true ∧ g.contains t = true := by
  obtain ⟨u, hsu, -⟩ := (ReflTransGen.cases_head h).resolve_left hne
  obtain ⟨v, -, hvt⟩ := (ReflTransGen.cases_tail h).resolve_left hne.symm
  exact ⟨(hg.contains_of_adj hsu).1, (hg.contains_of_adj hvt).2⟩

/-- **The test for cycles is exact**: an edge from `s` to `t` would close a cycle if and only if
`s` can be reached from `t`. -/
theorem createsCycle_iff {g : Digraph V D} (hg : g.WellFormed) (s t : String) :
    g.createsCycle s t = true ↔ ReflTransGen g.Adj t s := by
  rw [createsCycle, Bool.or_eq_true, beq_iff_eq, Bool.and_eq_true, Bool.and_eq_true,
    List.contains_iff_mem, hg.mem_sweep_iff]
  constructor
  · rintro (rfl | ⟨-, h⟩)
    · exact ReflTransGen.refl
    · exact h
  · intro h
    by_cases hst : s = t
    · exact Or.inl hst
    · have hends := hg.contains_of_reflTransGen (Ne.symm hst) h
      exact Or.inr ⟨⟨hends.2, hends.1⟩, h⟩

end Groundwork.Digraph
