/-
Graphs that arise by any operations.

Here nothing guards against cycles: vertices and edges come and go, and the properties of edges
change, in any order.  Whatever is done, the edges fit the vertices, and their slots are told apart
by a numbering without gaps: a new edge takes a free slot if there is one and the next number if
there is none, so it never takes a slot that is in use.

Main definitions:

* `Groundwork.Digraph.Operation`, `Groundwork.Digraph.Reply` — what can be done with a graph, and
  what it answers;
* `Groundwork.Digraph.inTurn` — the replies to operations in turn, and the state after them;
* `Groundwork.Digraph.Operation.perform` — an operation on a graph;
* `Groundwork.Digraph.Numbered` — the slots in use and the free slots are the first numbers.

Main results:

* `Groundwork.Digraph.Operation.wellFormed_perform`, `Groundwork.Digraph.Operation.numbered_perform`
  — what one operation keeps;
* `Groundwork.Digraph.wellFormed_inTurn`, `Groundwork.Digraph.numbered_inTurn` — what a run keeps;
* `Groundwork.Digraph.Numbered.slots_increase` — edges are listed by strictly increasing slot.
-/
import Groundwork.Proofs.Digraph.Acyclicity
import Mathlib.Data.List.Perm.Basic

set_option relaxedAutoImplicit false
set_option autoImplicit false

namespace Groundwork.Digraph

variable {V D : Type}

/-! ### Operations -/

/-- What can be done with a graph. -/
inductive Operation (V D : Type) where
  /-- Adds a vertex, or gives it a new value. -/
  | insertVertex (id : String) (value : V)
  | eraseVertex (id : String)
  /-- Adds an edge, or merges properties into it. -/
  | connect (source target : String) (properties : Properties D)
  | disconnect (source target : String)
  /-- Changes the properties of an edge. -/
  | modify (source target : String) (change : Properties D → Properties D)

/-- What an operation answers. -/
inductive Reply (V D : Type) where
  | done
  /-- The value of the removed vertex, if there was one. -/
  | erased (value : Option V)
  /-- Whether the edge is there. -/
  | connected (success : Bool)
  /-- The properties of the removed edge, or that there is none. -/
  | disconnected (result : Except Fault (Properties D))
  /-- The properties before the change, if there is an edge. -/
  | modified (properties : Option (Properties D))

/-- The replies to operations in turn, and the state after them. -/
def inTurn {σ : Type} (act : Operation V D → σ → Reply V D × σ) :
    List (Operation V D) → σ → List (Reply V D) × σ
  | [], s => ([], s)
  | op :: rest, s =>
    let (reply, s) := act op s
    let (replies, s) := inTurn act rest s
    (reply :: replies, s)

/-- What the operations in turn keep if each of them keeps it. -/
theorem of_inTurn {σ : Type} {act : Operation V D → σ → Reply V D × σ} {P : σ → Prop}
    (h : ∀ op s, P s → P (act op s).2) (ops : List (Operation V D)) {s : σ} (hs : P s) :
    P (inTurn act ops s).2 := by
  induction ops generalizing s with
  | nil => exact hs
  | cons op ops ih => exact ih (h op s hs)

namespace Operation

/-- An operation on a graph. -/
def perform : Operation V D → Digraph V D → Reply V D × Digraph V D
  | insertVertex id v, g => (.done, g.insertVertex id v)
  | eraseVertex id, g => (.erased (g.get? id), g.eraseVertex id)
  | connect s t p, g => (.connected (g.connect? s t p).isSome, g.connect s t p)
  | disconnect s t, g =>
    match g.disconnect s t with
    | .ok (p, g') => (.disconnected (.ok p), g')
    | .error f => (.disconnected (.error f), g)
  | modify s t f, g => (.modified (g.properties? s t), g.modifyProperties s t f)

end Operation

/-! ### Edges that fit the vertices -/

theorem WellFormed.modifyProperties {g : Digraph V D} (h : g.WellFormed) (s t : String)
    (f : Properties D → Properties D) : (g.modifyProperties s t f).WellFormed := by
  have hold : ∀ a ∈ (g.modifyProperties s t f).arcs, ∃ b ∈ g.arcs, b.revise s t f = a := by
    intro a ha
    rw [arcs_modifyProperties] at ha
    exact List.mem_map.1 ha
  refine ⟨fun a ha => ?_, fun a ha => ?_, ?_⟩
  · obtain ⟨b, hb, rfl⟩ := hold a ha
    rw [Arc.source_revise]
    exact h.source_mem b hb
  · obtain ⟨b, hb, rfl⟩ := hold a ha
    rw [Arc.target_revise]
    exact h.target_mem b hb
  · rw [arcs_modifyProperties, List.pairwise_map]
    simpa using h.simple

theorem WellFormed.arcs_nodup {g : Digraph V D} (h : g.WellFormed) : g.arcs.Nodup :=
  h.simple.imp fun hne heq => hne ⟨congrArg Arc.source heq, congrArg Arc.target heq⟩

/-- One edge joins the ends of an edge. -/
theorem WellFormed.filter_joins_perm {g : Digraph V D} (h : g.WellFormed) {a : Arc D}
    (ha : a ∈ g.arcs) : (g.arcs.filter (Arc.joins a.source a.target)).Perm [a] := by
  refine (List.perm_ext_iff_of_nodup (h.arcs_nodup.filter _) (List.nodup_singleton a)).2 ?_
  intro b
  rw [List.mem_filter, List.mem_singleton, Arc.joins_iff]
  constructor
  · rintro ⟨hb, hs, ht⟩
    exact h.eq_of_joins hb ha hs ht
  · rintro rfl
    exact ⟨ha, rfl, rfl⟩

theorem Operation.wellFormed_perform (op : Operation V D) {g : Digraph V D} (h : g.WellFormed) :
    (op.perform g).2.WellFormed := by
  cases op with
  | insertVertex id v => exact h.insertVertex id v
  | eraseVertex id => exact h.eraseVertex id
  | connect s t p => exact h.connect s t p
  | disconnect s t =>
      rw [perform]
      split
      case h_1 hok => exact h.disconnect hok
      case h_2 => exact h
  | modify s t f => exact h.modifyProperties s t f

theorem wellFormed_inTurn (ops : List (Operation V D)) :
    (inTurn Operation.perform ops ({} : Digraph V D)).2.WellFormed :=
  of_inTurn (fun op _ h => op.wellFormed_perform h) ops wellFormed_empty

/-! ### Slots -/

/-- The slots in use and the free slots are the numbers below their count, each of them once. -/
def Numbered (g : Digraph V D) : Prop :=
  (g.arcs.map Arc.slot ++ g.free).Perm (List.range (g.arcs.length + g.free.length))

namespace Numbered

variable {g : Digraph V D}

theorem empty : ({} : Digraph V D).Numbered := List.Perm.refl _

/-- The edges that go give their slots back. -/
theorem release (h : g.Numbered) (vertices : Table String V) {gone kept : List (Arc D)}
    {freed : List ℕ} (harcs : (gone ++ kept).Perm g.arcs)
    (hfreed : freed.Perm (gone.map Arc.slot)) :
    Numbered { vertices, arcs := kept, free := freed ++ g.free : Digraph V D } := by
  have hlen : kept.length + (freed ++ g.free).length = g.arcs.length + g.free.length := by
    rw [← harcs.length_eq, List.length_append, List.length_append, hfreed.length_eq,
      List.length_map]
    omega
  rw [Numbered, hlen]
  refine List.Perm.trans ?_ h
  calc (kept.map Arc.slot ++ (freed ++ g.free)).Perm (freed ++ kept.map Arc.slot ++ g.free) := by
        rw [← List.append_assoc]
        exact List.perm_append_comm.append_right _
    _ |>.Perm (gone.map Arc.slot ++ kept.map Arc.slot ++ g.free) :=
        (hfreed.append_right _).append_right _
    _ |>.Perm (g.arcs.map Arc.slot ++ g.free) := by
        rw [← List.map_append]
        exact (harcs.map _).append_right _

/-- A new edge takes the slot that was freed last, or else the next number. -/
theorem occupy (h : g.Numbered) (s t : String) (p : Properties D) :
    Numbered { g with arcs := ⟨s, t, g.nextSlot, p⟩ :: g.arcs, free := g.free.tail } := by
  rw [Numbered, nextSlot] at *
  cases hfree : g.free with
  | nil =>
      rw [hfree, List.append_nil, List.length_nil, Nat.add_zero] at h
      simp only [List.headD_nil, List.tail_nil, List.map_cons, List.append_nil, List.length_cons,
        List.length_nil, Nat.add_zero, List.range_succ]
      exact (h.cons _).trans (List.perm_append_singleton _ _).symm
  | cons n free =>
      rw [hfree, List.length_cons, ← Nat.add_assoc] at h
      simp only [List.headD_cons, List.tail_cons, List.map_cons, List.cons_append, List.length_cons]
      rw [Nat.add_right_comm]
      exact List.perm_middle.symm.trans h

theorem insertVertex (h : g.Numbered) (id : String) (v : V) : (g.insertVertex id v).Numbered := h

theorem modifyProperties (h : g.Numbered) (s t : String) (f : Properties D → Properties D) :
    (g.modifyProperties s t f).Numbered := by
  have hslot : (Arc.slot ∘ Arc.revise s t f : Arc D → ℕ) = Arc.slot := by
    funext a
    rw [Function.comp, Arc.revise]
    split <;> rfl
  rw [Numbered, arcs_modifyProperties, List.map_map, hslot, List.length_map]
  exact h

theorem connect (h : g.Numbered) (s t : String) (p : Properties D) :
    (g.connect s t p).Numbered := by
  rw [Digraph.connect, connect?]
  split
  · split
    · exact h.modifyProperties s t (·.merge p)
    · exact h.occupy s t p
  · exact h

/-- The edges that go with a vertex and those that stay are all edges. -/
theorem incident_append_perm (g : Digraph V D) (id : String) :
    (g.incident id ++ (g.eraseVertex id).arcs).Perm g.arcs := by
  have htouch := List.filter_append_perm (fun a : Arc D => a.source == id || a.target == id) g.arcs
  have hleave := List.filter_append_perm (fun a : Arc D => a.source == id)
    (g.arcs.filter fun a => a.source == id || a.target == id)
  rw [List.filter_filter, List.filter_filter] at hleave
  refine List.Perm.trans ?_ ((hleave.append_right _).trans htouch)
  refine List.Perm.of_eq ?_
  rw [incident, arcsAt, arcsAt, eraseVertex, List.filter_filter]
  congr 1
  · congr 1 <;> refine List.filter_congr fun a _ => ?_
    all_goals cases hs : a.source == id <;> simp [Arc.near, bne, hs]
  · refine List.filter_congr fun a _ => ?_
    rw [Bool.not_or]
    rfl

theorem eraseVertex (h : g.Numbered) (id : String) : (g.eraseVertex id).Numbered :=
  h.release _ (incident_append_perm g id) (List.reverse_perm _)

theorem disconnect (h : g.Numbered) (hg : g.WellFormed) {g' : Digraph V D} {s t : String}
    {p : Properties D} (hok : g.disconnect s t = .ok (p, g')) : g'.Numbered := by
  rw [Digraph.disconnect] at hok
  split at hok
  case h_1 => cases hok
  case h_2 a ha =>
      cases hok
      obtain ⟨hmem, rfl, rfl⟩ := of_arc?_eq_some ha
      exact h.release g.vertices (List.filter_append_perm (Arc.joins a.source a.target) g.arcs)
        ((hg.filter_joins_perm hmem).map Arc.slot).symm

/-- No two edges have the same slot. -/
theorem slots_nodup (h : g.Numbered) : (g.arcs.map Arc.slot).Nodup :=
  List.Nodup.of_append_left (h.nodup_iff.2 List.nodup_range)

/-- The edges are listed by strictly increasing slot. -/
theorem slots_increase (h : g.Numbered) : (g.arcsBySlot.map Arc.slot).Pairwise (· < ·) := by
  have hsorted : g.arcsBySlot.Pairwise fun a b => decide (a.slot ≤ b.slot) = true := by
    refine List.pairwise_mergeSort (fun a b c hab hbc => ?_) (fun a b => ?_) g.arcs
    · exact decide_eq_true (Nat.le_trans (of_decide_eq_true hab) (of_decide_eq_true hbc))
    · simpa using Nat.le_total a.slot b.slot
  have hnodup : (g.arcsBySlot.map Arc.slot).Nodup :=
    ((List.mergeSort_perm _ _).map _).nodup_iff.2 h.slots_nodup
  rw [List.pairwise_map]
  exact (hsorted.and (List.pairwise_map.1 hnodup)).imp fun h =>
    Nat.lt_of_le_of_ne (of_decide_eq_true h.1) h.2

end Numbered

theorem Operation.numbered_perform (op : Operation V D) {g : Digraph V D} (hg : g.WellFormed)
    (h : g.Numbered) : (op.perform g).2.Numbered := by
  cases op with
  | insertVertex id v => exact h.insertVertex id v
  | eraseVertex id => exact h.eraseVertex id
  | connect s t p => exact h.connect s t p
  | disconnect s t =>
      rw [perform]
      split
      case h_1 hok => exact h.disconnect hg hok
      case h_2 => exact h
  | modify s t f => exact h.modifyProperties s t f

theorem numbered_inTurn (ops : List (Operation V D)) :
    (inTurn Operation.perform ops ({} : Digraph V D)).2.Numbered :=
  (of_inTurn (P := fun g : Digraph V D => g.WellFormed ∧ g.Numbered)
    (fun op _ h => ⟨op.wellFormed_perform h.1, op.numbered_perform h.1 h.2⟩) ops
    ⟨wellFormed_empty, Numbered.empty⟩).2

end Groundwork.Digraph
