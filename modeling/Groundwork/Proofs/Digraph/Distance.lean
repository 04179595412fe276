/-
Distances, and lists that keep to their order.

Whoever leaves vertices in the order of their discovery leaves them in the order of their distances.
The vertices found but not left yet are of two distances at most: those as far away as the vertex to
be left next, and behind them those one step further.  A vertex that is found only now is one step
further, since whatever is nearer has been found before.

Main definitions:

* `Groundwork.Digraph.Hops`, `Groundwork.Digraph.distance` — so many steps in turn, and the fewest
  that lead somewhere;
* `Groundwork.Digraph.Layered` — the vertices left and those of the queue, in the order of their
  distances.

Main results:

* `Groundwork.Digraph.Layered.leave` — **leaving a vertex keeps the order**;
* `Groundwork.Digraph.Layered.mem_iff` — what has been found in the end is what can be reached.
-/
import Mathlib.Data.List.Nodup
import Mathlib.Logic.Relation
import Mathlib.Order.Lattice.Nat

set_option relaxedAutoImplicit false
set_option autoImplicit false

namespace Groundwork.Digraph

open Relation

/-! ### Steps in turn -/

/-- `y` can be reached from `x` in `n` steps. -/
inductive Hops (r : String → String → Prop) (x : String) : ℕ → String → Prop
  | here : Hops r x 0 x
  | step {n : ℕ} {y z : String} : Hops r x n y → r y z → Hops r x (n + 1) z

/-- The fewest steps that lead from `x` to `y`. -/
noncomputable def distance (r : String → String → Prop) (x y : String) : ℕ :=
  sInf {n | Hops r x n y}

section Hops

variable {r : String → String → Prop} {x y z : String} {n : ℕ}

theorem exists_hops (h : ReflTransGen r x y) : ∃ n, Hops r x n y := by
  induction h with
  | refl => exact ⟨0, .here⟩
  | tail _ hyz ih =>
      obtain ⟨n, hn⟩ := ih
      exact ⟨n + 1, hn.step hyz⟩

/-- What can be reached can be reached in as many steps as it is away. -/
theorem hops_distance (h : ReflTransGen r x y) : Hops r x (distance r x y) y :=
  Nat.sInf_mem (exists_hops h)

theorem Hops.distance_le (h : Hops r x n y) : distance r x y ≤ n := Nat.sInf_le h

theorem distance_self (r : String → String → Prop) (x : String) : distance r x x = 0 :=
  Nat.le_zero.1 Hops.here.distance_le

/-- One step leads no further away than by one. -/
theorem distance_le_succ (hy : ReflTransGen r x y) (hyz : r y z) :
    distance r x z ≤ distance r x y + 1 :=
  ((hops_distance hy).step hyz).distance_le

end Hops

/-! ### The order of a walk -/

/-- A walk from `s` has left the vertices of `done` and has those of `queue` still to leave. -/
structure Layered (r : String → String → Prop) (s : String) (done queue : List String) : Prop where
  nodup : (done ++ queue).Nodup
  start_mem : s ∈ done ++ queue
  reached : ∀ x ∈ done ++ queue, ReflTransGen r s x
  /-- What is next to a vertex that was left has been found. -/
  closed : ∀ x ∈ done, ∀ y, r x y → y ∈ done ++ queue
  sorted : (done ++ queue).Pairwise fun x y => distance r s x ≤ distance r s y
  /-- The queue does not reach far. -/
  span : ∀ x ∈ queue, ∀ y ∈ queue.head?, distance r s x ≤ distance r s y + 1

namespace Layered

variable {r : String → String → Prop} {s v x : String} {done queue new : List String} {n : ℕ}

theorem start (r : String → String → Prop) (s : String) : Layered r s [] [s] where
  nodup := List.nodup_singleton s
  start_mem := List.mem_singleton_self s
  reached x hx := by rw [List.mem_singleton.1 hx]
  closed x hx := absurd hx List.not_mem_nil
  sorted := List.pairwise_singleton _ s
  span x hx y hy := by
    obtain rfl := Option.some_inj.1 hy
    rw [List.mem_singleton.1 hx]
    exact Nat.le_succ _

theorem distance_le_of_mem_queue (h : Layered r s done (v :: queue)) (hx : x ∈ v :: queue) :
    distance r s v ≤ distance r s x := by
  rcases List.mem_cons.1 hx with rfl | hx
  · exact le_rfl
  · exact (List.pairwise_cons.1 (List.pairwise_append.1 h.sorted).2.1).1 x hx

theorem distance_le_of_mem (h : Layered r s done (v :: queue)) (hx : x ∈ done ++ v :: queue) :
    distance r s x ≤ distance r s v + 1 := by
  rcases List.mem_append.1 hx with hx | hx
  · exact Nat.le_succ_of_le ((List.pairwise_append.1 h.sorted).2.2 x hx v List.mem_cons_self)
  · exact h.span x hx v rfl

/-- What has not been left is no nearer than the vertex to be left next. -/
theorem distance_le_of_hops (h : Layered r s done (v :: queue)) (hhops : Hops r s n x)
    (hx : x ∉ done) : distance r s v ≤ n := by
  induction hhops with
  | here =>
      have hs : s ∈ v :: queue := (List.mem_append.1 h.start_mem).resolve_left hx
      exact (h.distance_le_of_mem_queue hs).trans (distance_self r s).le
  | @step n y z hhops hyz ih =>
      by_cases hy : y ∈ done
      · -- the steps leave `done` just now, so they have come to the queue
        have hz : z ∈ v :: queue := (List.mem_append.1 (h.closed y hy z hyz)).resolve_left hx
        exact (h.distance_le_of_mem_queue hz).trans (hhops.step hyz).distance_le
      · exact Nat.le_succ_of_le (ih hy)

/-- What is found when a vertex is left is one step further away than this vertex. -/
theorem distance_eq_succ (h : Layered r s done (v :: queue)) (hvx : r v x)
    (hx : x ∉ done ++ v :: queue) : distance r s x = distance r s v + 1 := by
  have hv : ReflTransGen r s v := h.reached v (List.mem_append_right _ List.mem_cons_self)
  refine Nat.le_antisymm (distance_le_succ hv hvx) ?_
  have hhops := hops_distance (hv.tail hvx)
  generalize distance r s x = m at hhops
  cases hhops with
  | here => exact absurd h.start_mem hx
  | step hhops hyx =>
      exact Nat.succ_le_succ (h.distance_le_of_hops hhops fun hy => hx (h.closed _ hy x hyx))

/-- **A vertex is left**, and what is new next to it goes to the end of the queue. -/
theorem leave (h : Layered r s done (v :: queue)) (hnodup : new.Nodup)
    (hnew : ∀ x, x ∈ new ↔ r v x ∧ x ∉ done ++ v :: queue) :
    Layered r s (done ++ [v]) (queue ++ new) := by
  have hshift : (done ++ [v]) ++ (queue ++ new) = done ++ v :: queue ++ new := by simp
  have hv : ReflTransGen r s v := h.reached v (List.mem_append_right _ List.mem_cons_self)
  have hdistance : ∀ x ∈ new, distance r s x = distance r s v + 1 := fun x hx =>
    h.distance_eq_succ ((hnew x).1 hx).1 ((hnew x).1 hx).2
  refine ⟨?_, ?_, ?_, ?_, ?_, ?_⟩
  · rw [hshift]
    refine List.nodup_append.2 ⟨h.nodup, hnodup, ?_⟩
    rintro x hx y hy rfl
    exact ((hnew x).1 hy).2 hx
  · rw [hshift]
    exact List.mem_append_left _ h.start_mem
  · rw [hshift, List.forall_mem_append]
    exact ⟨h.reached, fun x hx => hv.tail ((hnew x).1 hx).1⟩
  · intro x hx y hxy
    rw [hshift, List.mem_append]
    rcases List.mem_append.1 hx with hx | hx
    · exact Or.inl (h.closed x hx y hxy)
    · rw [List.mem_singleton.1 hx] at hxy
      by_cases hy : y ∈ done ++ v :: queue
      · exact Or.inl hy
      · exact Or.inr ((hnew y).2 ⟨hxy, hy⟩)
  · rw [hshift]
    refine List.pairwise_append.2 ⟨h.sorted, List.pairwise_of_forall_mem_list ?_, ?_⟩
    · exact fun x hx y hy => ((hdistance x hx).trans (hdistance y hy).symm).le
    · exact fun x hx y hy => (h.distance_le_of_mem hx).trans (hdistance y hy).ge
  · -- all that is left in the queue is as far away as `v`, or one step further
    have hbounds : ∀ x ∈ queue ++ new, distance r s v ≤ distance r s x ∧
        distance r s x ≤ distance r s v + 1 := by
      refine List.forall_mem_append.2 ⟨fun x hx => ?_, fun x hx => ?_⟩
      · have hmem := List.mem_cons_of_mem v hx
        exact ⟨h.distance_le_of_mem_queue hmem, h.span x hmem v rfl⟩
      · exact ⟨(Nat.le_succ _).trans (hdistance x hx).ge, (hdistance x hx).le⟩
    intro x hx y hy
    exact (hbounds x hx).2.trans (Nat.succ_le_succ (hbounds y (List.mem_of_mem_head? hy)).1)

/-- A walk that has left all that it has found has found all that can be reached. -/
theorem mem_iff (h : Layered r s done []) : x ∈ done ↔ ReflTransGen r s x := by
  have happend : done ++ [] = done := List.append_nil done
  constructor
  · exact fun hx => h.reached x (happend.symm ▸ hx)
  · intro hx
    induction hx with
    | refl => exact happend ▸ h.start_mem
    | tail _ hyz ih => exact happend ▸ h.closed _ ih _ hyz

end Layered

end Groundwork.Digraph
