/-
What a walk lists.

A walk lists the vertices that it finds in the order of their discovery, without its start.  Since
it keeps to the order of distances, the nearest come first.

Main definitions:

* `Groundwork.Digraph.found` — the ids of the vertices that a walk finds apart from its start.

Main results:

* `Groundwork.Digraph.WellFormed.mem_found_iff` — what is found, apart from the start;
* `Groundwork.Digraph.reachable_breadthFirst` — **a walk lists what can be reached from its start,
  once each and the nearest first, and a walk back finds its start**.
-/
import Groundwork.Proofs.Digraph.Operations

set_option relaxedAutoImplicit false
set_option autoImplicit false

namespace Groundwork.Digraph

open Relation

variable {V D : Type}

/-- The ids of the vertices that a walk from `id` finds, without `id`. -/
def found (g : Digraph V D) (id : String) (d : Direction) : List String := (g.sweep d id).tail

section Found

variable {g : Digraph V D}

/-- A walk finds its start first. -/
theorem WellFormed.sweep_eq_cons (hg : g.WellFormed) (d : Direction) (id : String) :
    g.sweep d id = id :: g.found id d := by
  obtain ⟨more, hmore⟩ := (hg.walks_sweep d id).exists_append
  rw [found, hmore]
  rfl

theorem WellFormed.nodup_found (hg : g.WellFormed) (d : Direction) (id : String) :
    (id :: g.found id d).Nodup := by
  rw [← hg.sweep_eq_cons d id]
  simpa using (hg.layered_sweep d id).nodup

theorem WellFormed.mem_found_iff (hg : g.WellFormed) {d : Direction} {id x : String} :
    x ∈ g.found id d ↔ x ≠ id ∧ TransGen (g.Steps d) id x := by
  have hmem : x ∈ g.sweep d id ↔ ReflTransGen (g.Steps d) id x := hg.mem_sweep_iff
  rw [hg.sweep_eq_cons d id, List.mem_cons, reflTransGen_iff_eq_or_transGen] at hmem
  constructor
  · intro hx
    have hne : x ≠ id := fun heq => (List.nodup_cons.1 (hg.nodup_found d id)).1 (heq ▸ hx)
    exact ⟨hne, (hmem.1 (Or.inr hx)).resolve_left hne⟩
  · rintro ⟨hne, htrans⟩
    exact (hmem.2 (Or.inr htrans)).resolve_left hne

/-- Steps back lead back. -/
theorem transGen_steps_incoming {x y : String} :
    TransGen (g.Steps .incoming) y x ↔ TransGen (g.Steps .outgoing) x y :=
  transGen_swap (r := g.Adj)

/-- A walk lists the values of the vertices that it finds. -/
theorem WellFormed.map_reachable (hg : g.WellFormed) (d : Direction) (id : String) :
    (g.reachable id d).map some = (g.found id d).map g.get? := by
  have hfound : ∀ x ∈ g.found id d, g.contains id = true ∧ g.contains x = true := by
    intro x hx
    obtain ⟨hne, hleads⟩ := hg.mem_found_iff.1 hx
    cases d with
    | outgoing => exact hg.contains_of_reflTransGen hne.symm hleads.to_reflTransGen
    | incoming =>
        have hback : TransGen g.Adj x id := transGen_steps_incoming.1 hleads
        exact (hg.contains_of_reflTransGen hne hback.to_reflTransGen).symm
  have hids : g.reachable id d = (g.found id d).filterMap g.get? := by
    rw [reachable, ← found]
    split
    case isTrue => rfl
    case isFalse hid =>
        have hnone : g.found id d = [] :=
          List.eq_nil_iff_forall_not_mem.2 fun x hx => hid (hfound x hx).1
        rw [hnone]
        rfl
  rw [hids, map_get?_eq_map_some fun x hx => (hfound x hx).2]

end Found

/-- **A walk lists what can be reached from its start, once each and the nearest first.**  Its loop
ends with these vertices found, the start among them; and what one walk finds finds its start in a
walk in the other direction. -/
theorem reachable_breadthFirst (ops : List (Operation V D)) :
    let g := (inTurn Operation.perform ops ({} : Digraph V D)).2
    (∀ id d,
      (g.reachable id d).map some = (g.found id d).map g.get? ∧
      (g.found id d).Nodup ∧
      (∀ x, x ∈ g.found id d ↔ x ≠ id ∧ TransGen (g.Steps d) id x) ∧
      (g.found id d).Pairwise (fun x y => distance (g.Steps d) id x ≤ distance (g.Steps d) id y) ∧
      Walks (g.adjacent d) [id] [id] (id :: g.found id d)) ∧
    ∀ x y, y ∈ g.found x .outgoing ↔ x ∈ g.found y .incoming := by
  intro g
  have hg : g.WellFormed := wellFormed_inTurn ops
  refine ⟨fun id d => ⟨hg.map_reachable d id, (List.nodup_cons.1 (hg.nodup_found d id)).2,
    fun x => hg.mem_found_iff, ?_, ?_⟩, fun x y => ?_⟩
  · have hsorted := (hg.layered_sweep d id).sorted
    rw [List.append_nil, hg.sweep_eq_cons d id, List.pairwise_cons] at hsorted
    exact hsorted.2
  · rw [← hg.sweep_eq_cons d id]
    exact hg.walks_sweep d id
  · rw [hg.mem_found_iff, hg.mem_found_iff, transGen_steps_incoming, ne_comm]

end Groundwork.Digraph
