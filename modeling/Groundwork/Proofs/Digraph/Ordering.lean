/-
Topological order.

The run that places vertices keeps, for each vertex, the number of edges into it whose source is
not placed yet.  While the edges that leave a vertex just placed are worked off, these numbers are
too high by the edges still pending, and the invariant says by how much.

Main definitions:

* `Groundwork.Digraph.due` — the number of edges into a vertex whose source is not placed;
* `Groundwork.Digraph.Placing.Sound` — the invariant of the run, with the ends of the edges that
  are still to be worked off;
* `Groundwork.Digraph.Orders` — a list has each vertex once, and the source of each edge before
  its target.

Main results:

* `Groundwork.Digraph.Placing.Sound.step`, `Groundwork.Digraph.Placing.Sound.run` — the invariant
  holds at the start and after each step;
* `Groundwork.Digraph.Placing.Sound.exists_cycle_of_not_ready` — when the run stops, a vertex left
  over has a cycle behind it;
* `Groundwork.Digraph.topologicalOrder_cases` — how the run ends;
* `Groundwork.Digraph.Acyclic.exists_orders` — **a graph without cycles has a topological order**,
  and the run finds one.
-/
import Groundwork.Digraph.Order
import Groundwork.Proofs.Digraph.Acyclicity
import Mathlib.Data.List.Perm.Subperm

set_option relaxedAutoImplicit false
set_option autoImplicit false

namespace Groundwork.Digraph

open Relation

variable {V D : Type}

/-! ### Edges that are due -/

/-- The number of edges into `x` whose source is not placed. -/
def due (g : Digraph V D) (placed : List String) (x : String) : ℕ :=
  ((g.arcsAt x .incoming).filter fun a => a.source ∉ placed).length

@[simp] theorem due_nil (g : Digraph V D) (x : String) :
    g.due [] x = (g.arcsAt x .incoming).length := by
  simp [due]

/-- Nothing is due exactly if every predecessor is placed. -/
theorem due_eq_zero_iff {g : Digraph V D} {placed : List String} {x : String} :
    g.due placed x = 0 ↔ ∀ y, g.Adj y x → y ∈ placed := by
  rw [due, List.length_eq_zero_iff, List.filter_eq_nil_iff]
  constructor
  · rintro h y ⟨a, ha, rfl, rfl⟩
    simpa using h a (List.mem_filter.2 ⟨ha, beq_self_eq_true _⟩)
  · intro h a ha
    have hmem := List.mem_filter.1 ha
    simpa using h a.source ⟨a, hmem.1, rfl, beq_iff_eq.1 hmem.2⟩

/-- Placing a vertex settles the edges that leave it. -/
theorem due_append_singleton (g : Digraph V D) {v : String} {placed : List String}
    (hv : v ∉ placed) (x : String) :
    g.due (placed ++ [v]) x + (g.adjacent .outgoing v).count x = g.due placed x := by
  have hcount : (g.adjacent .outgoing v).count x =
      ((g.arcsAt x .incoming).filter fun a => a.source == v).length := by
    rw [adjacent, List.count, List.countP_map, List.countP_eq_length_filter, arcsAt, arcsAt,
      List.filter_filter, List.filter_filter]
    refine congrArg List.length (List.filter_congr fun a _ => ?_)
    exact Bool.and_comm _ _
  rw [hcount]
  exact length_filter_notMem_append _ Arc.source hv

/-! ### The invariant -/

namespace Placing

/-- What holds of a run over `g` while the edges into the vertices of `pending` are still to be
worked off. -/
structure Sound (g : Digraph V D) (pending : List String) (p : Placing) : Prop where
  /-- No vertex is placed twice. -/
  nodup : p.placed.Nodup
  /-- Only vertices are placed. -/
  vertex : ∀ x ∈ p.placed, g.contains x = true
  /-- A vertex waits for the edges that are due and for those still pending. -/
  waiting : ∀ x, p.waiting.get? x =
    if g.contains x = true then some (g.due p.placed x + pending.count x) else none
  /-- A vertex is ready if it is not placed and waits for nothing. -/
  ready : ∀ x, p.ready.contains x = true ↔ x ∉ p.placed ∧ p.waiting.get? x = some 0
  /-- A placed vertex waits for nothing. -/
  settled : ∀ x ∈ p.placed, p.waiting.get? x = some 0
  /-- Every predecessor of a placed vertex is placed before it. -/
  ordered : ∀ before x after, p.placed = before ++ x :: after → ∀ y, g.Adj y x → y ∈ before

theorem Sound.start (g : Digraph V D) : Sound g [] (Placing.start g) where
  nodup := List.nodup_nil
  vertex _ hx := absurd hx List.not_mem_nil
  waiting x := by
    rw [Placing.start, Table.get?_map, contains, Table.contains_eq_isSome]
    cases g.vertices.get? x <;> simp
  ready x := by
    simp only [Placing.start, List.not_mem_nil, not_false_eq_true, true_and, Table.contains_iff,
      Table.get?_map, Table.get?_filter, Option.map_eq_some_iff, Option.filter_eq_some_iff,
      List.isEmpty_iff, List.length_eq_zero_iff]
    grind
  settled _ hx := absurd hx List.not_mem_nil
  ordered before x after h := absurd h.symm (by simp [Placing.start])

/-- Working off one edge. -/
theorem Sound.release {g : Digraph V D} {x : String} {pending : List String} {p : Placing}
    (h : Sound g (x :: pending) p) : Sound g pending (p.release x) := by
  have hx := h.waiting x
  rw [List.count_cons_self] at hx
  by_cases hvertex : g.contains x = true
  · rw [if_pos hvertex] at hx
    -- a placed vertex waits for nothing, and `x` waits at least for the edge that is pending
    have hplaced : x ∉ p.placed := by
      intro hmem
      have hzero := h.settled x hmem
      rw [hx, Option.some_inj] at hzero
      omega
    set n := g.due p.placed x + pending.count x with hn
    have hstate : p.release x =
        { p with
          waiting := p.waiting.insert x n
          ready := if n = 0 then p.ready.insert x () else p.ready } := by
      rw [Placing.release, hx]
      simp [hn, ← Nat.add_assoc]
    have hwaiting : ∀ y, (p.waiting.insert x n).get? y =
        if g.contains y = true then some (g.due p.placed y + pending.count y) else none := by
      intro y
      rw [Table.get?_insert]
      by_cases hxy : x = y
      · rw [if_pos hxy, ← hxy, if_pos hvertex]
      · rw [if_neg hxy, h.waiting y, List.count_cons_of_ne hxy]
    rw [hstate]
    refine ⟨h.nodup, h.vertex, hwaiting, fun y => ?_, fun y hy => ?_, h.ordered⟩
    · have hready := h.ready y
      by_cases hxy : x = y
      · subst hxy
        have hnot : ¬ p.ready.contains x = true := by
          rw [hready, hx, Option.some_inj]
          omega
        rw [Table.get?_insert, if_pos rfl, Option.some_inj]
        split
        case isTrue hzero => simp [Table.contains_insert, hzero, hplaced]
        case isFalse hpos => simp [hnot, hpos]
      · rw [Table.get?_insert, if_neg hxy, ← hready]
        split
        case isTrue hzero => simp [Table.contains_insert, hxy]
        case isFalse hpos => exact Iff.rfl
    · have hxy : x ≠ y := fun heq => hplaced (heq ▸ hy)
      rw [Table.get?_insert, if_neg hxy]
      exact h.settled y hy
  · -- what is not a vertex waits for nothing
    rw [if_neg hvertex] at hx
    have hstate : p.release x = p := by rw [Placing.release, hx]
    rw [hstate]
    refine ⟨h.nodup, h.vertex, fun y => ?_, h.ready, h.settled, h.ordered⟩
    by_cases hxy : x = y
    · rw [← hxy, if_neg hvertex, hx]
    · rw [h.waiting y, List.count_cons_of_ne hxy]

/-- Working off all edges that are pending. -/
theorem Sound.releaseAll {g : Digraph V D} {pending : List String} {p : Placing}
    (h : Sound g pending p) : Sound g [] (pending.foldl Placing.release p) := by
  induction pending generalizing p with
  | nil => exact h
  | cons x pending ih => exact ih h.release

@[simp] theorem placed_release (p : Placing) (x : String) : (p.release x).placed = p.placed := by
  rw [release]
  split <;> rfl

theorem placed_releaseAll (l : List String) (p : Placing) :
    (l.foldl Placing.release p).placed = p.placed := by
  induction l generalizing p with
  | nil => rfl
  | cons x l ih => rw [List.foldl_cons, ih, placed_release]

/-- What is ready is a vertex. -/
theorem Sound.contains_of_ready {g : Digraph V D} {pending : List String} {p : Placing}
    (h : Sound g pending p) {x : String} (hx : p.ready.contains x = true) :
    g.contains x = true := by
  by_contra hnot
  have hwait := h.waiting x
  rw [((h.ready x).1 hx).2, if_neg hnot] at hwait
  cases hwait

/-- Placing a ready vertex; the edges that leave it are pending then. -/
theorem Sound.place {g : Digraph V D} {p : Placing} (h : Sound g [] p) {x : String}
    (hx : p.ready.contains x = true) :
    Sound g (g.adjacent .outgoing x)
      { p with ready := p.ready.erase x, placed := p.placed ++ [x] } := by
  obtain ⟨hplaced, hzero⟩ := (h.ready x).1 hx
  have hvertex : g.contains x = true := h.contains_of_ready hx
  have hwait := h.waiting x
  rw [hzero] at hwait
  have hdue : g.due p.placed x = 0 := by
    rw [if_pos hvertex, Option.some_inj] at hwait
    simpa using hwait.symm
  refine ⟨?_, ?_, fun y => ?_, fun y => ?_, ?_, ?_⟩
  · refine List.nodup_append.2 ⟨h.nodup, List.nodup_singleton x, ?_⟩
    rintro y hy z hz rfl
    exact hplaced (List.mem_singleton.1 hz ▸ hy)
  · intro y hy
    rcases List.mem_append.1 hy with hy | hy
    · exact h.vertex y hy
    · rw [List.mem_singleton.1 hy]
      exact hvertex
  · rw [h.waiting y, due_append_singleton g hplaced]
    simp
  · rw [Table.contains_erase, Bool.and_eq_true, decide_eq_true_eq, h.ready y, List.mem_append,
      List.mem_singleton]
    tauto
  · intro y hy
    rcases List.mem_append.1 hy with hy | hy
    · exact h.settled y hy
    · rw [List.mem_singleton.1 hy]
      exact hzero
  · intro before y after heq z hz
    rcases List.eq_nil_or_concat after with rfl | ⟨after, w, rfl⟩
    · -- `y` is the vertex just placed, for which nothing was due
      obtain ⟨rfl, rfl⟩ := List.concat_inj.1 (by simpa using heq)
      exact due_eq_zero_iff.1 hdue z hz
    · refine h.ordered before y after ?_ z hz
      have heq' : p.placed ++ [x] = (before ++ y :: after) ++ [w] := by simpa using heq
      exact (List.append_inj' heq' rfl).1

/-- There is no step exactly if no vertex is ready. -/
theorem step_eq_none_iff {g : Digraph V D} {p : Placing} : p.step g = none ↔ p.ready.keys = [] := by
  rw [step]
  split
  case h_1 hkeys => exact ⟨fun _ => hkeys, fun _ => rfl⟩
  case h_2 hkeys => exact ⟨nofun, fun h => absurd (hkeys.symm.trans h) (List.cons_ne_nil _ _)⟩

/-- A step places the first of the ready vertices and works off the edges that leave it. -/
theorem exists_of_step {g : Digraph V D} {p p' : Placing} (h : p.step g = some p') :
    ∃ x rest, p.ready.keys = x :: rest ∧ p' = (g.adjacent .outgoing x).foldl Placing.release
      { p with ready := p.ready.erase x, placed := p.placed ++ [x] } := by
  rw [step] at h
  split at h
  case h_1 => cases h
  case h_2 x rest hkeys => exact ⟨x, rest, hkeys, (Option.some_inj.1 h).symm⟩

theorem contains_ready_of_keys {p : Placing} {x : String} {rest : List String}
    (h : p.ready.keys = x :: rest) : p.ready.contains x = true :=
  Table.mem_keys_iff.1 (h ▸ List.mem_cons_self)

/-- A step keeps the invariant and places one vertex. -/
theorem Sound.step {g : Digraph V D} {p p' : Placing} (h : Sound g [] p)
    (hstep : p.step g = some p') :
    Sound g [] p' ∧ p'.placed.length = p.placed.length + 1 := by
  obtain ⟨x, rest, hkeys, rfl⟩ := exists_of_step hstep
  exact ⟨(h.place (contains_ready_of_keys hkeys)).releaseAll, by simp [placed_releaseAll]⟩

/-- A run ends when nothing is ready, or when all its steps are used up. -/
theorem Sound.run {g : Digraph V D} (n : ℕ) {p : Placing} (h : Sound g [] p) :
    Sound g [] (p.run g n) ∧
      ((p.run g n).ready.keys = [] ∨ (p.run g n).placed.length = p.placed.length + n) := by
  induction n generalizing p with
  | zero => exact ⟨h, Or.inr rfl⟩
  | succ n ih =>
      rw [Placing.run]
      split
      case h_1 hnone => exact ⟨h, Or.inl (step_eq_none_iff.1 hnone)⟩
      case h_2 p' hstep =>
          obtain ⟨hsound, hlength⟩ := h.step hstep
          obtain ⟨hrun, hend⟩ := ih hsound
          exact ⟨hrun, hend.imp_right fun hlen => by omega⟩

end Placing

/-! ### Topological orders -/

/-- `order` has each vertex once, and the source of each edge before its target. -/
structure Orders (g : Digraph V D) (order : List String) : Prop where
  /-- Each vertex is listed once. -/
  perm : order.Perm g.ids
  /-- The source of an edge stands before its target. -/
  before : ∀ s t, g.Adj s t → [s, t].Sublist order

/-- Among some vertices, none of which leads to itself, there is one that none of them leads to. -/
theorem exists_minimal {g : Digraph V D} {l : List String} (hl : l ≠ [])
    (hself : ∀ x ∈ l, ¬ g.Leads x x) : ∃ x ∈ l, ∀ y ∈ l, ¬ g.Leads y x := by
  induction l with
  | nil => exact absurd rfl hl
  | cons v l ih =>
      have hv : ¬ g.Leads v v := hself v List.mem_cons_self
      cases l with
      | nil => exact ⟨v, List.mem_cons_self, fun y hy => List.mem_singleton.1 hy ▸ hv⟩
      | cons w l =>
          obtain ⟨x, hx, hmin⟩ := ih (List.cons_ne_nil w l) fun y hy =>
            hself y (List.mem_cons_of_mem v hy)
          -- either `v` lies above the vertex found in the rest, or that one is still minimal
          by_cases hvx : g.Leads v x
          · refine ⟨v, List.mem_cons_self, fun y hy hyv => ?_⟩
            rcases List.mem_cons.1 hy with rfl | hy
            · exact hv hyv
            · exact hmin y hy (hyv.trans hvx)
          · refine ⟨x, List.mem_cons_of_mem v hx, fun y hy => ?_⟩
            rcases List.mem_cons.1 hy with rfl | hy
            · exact hvx
            · exact hmin y hy

namespace Placing

variable {g : Digraph V D} {p : Placing}

/-- The placed vertices are no more than all vertices. -/
theorem Sound.subperm {pending : List String} (h : Sound g pending p) : p.placed.Subperm g.ids :=
  h.nodup.subperm fun x hx => mem_ids_iff.2 (h.vertex x hx)

/-- If no vertex is ready, a vertex left over has a predecessor left over. -/
theorem Sound.exists_adj_of_not_ready (h : Sound g [] p) (hready : p.ready.keys = []) {x : String}
    (hx : g.contains x = true) (hplaced : x ∉ p.placed) : ∃ y, g.Adj y x ∧ y ∉ p.placed := by
  by_contra hnone
  have hdue : g.due p.placed x = 0 := by
    refine due_eq_zero_iff.2 fun y hyx => ?_
    by_contra hy
    exact hnone ⟨y, hyx, hy⟩
  have hwait : p.waiting.get? x = some 0 := by
    rw [h.waiting x, if_pos hx, hdue]
    rfl
  have hmem : x ∈ p.ready.keys := Table.mem_keys_iff.2 ((h.ready x).2 ⟨hplaced, hwait⟩)
  rw [hready] at hmem
  exact List.not_mem_nil hmem

/-- If no vertex is ready, a vertex left over has a cycle behind it. -/
theorem Sound.exists_cycle_of_not_ready (h : Sound g [] p) (hg : g.WellFormed)
    (hready : p.ready.keys = []) {x : String} (hx : g.contains x = true) (hplaced : x ∉ p.placed) :
    ∃ v, g.Leads v v ∧ ReflTransGen g.Adj v x := by
  classical
  by_contra hnone
  -- of the vertices left over that lead to `x` one would be led to by none of them
  have hleft : (g.ids.filter fun y => y ∉ p.placed ∧ ReflTransGen g.Adj y x) ≠ [] :=
    List.ne_nil_of_mem (List.mem_filter.2
      ⟨mem_ids_iff.2 hx, decide_eq_true ⟨hplaced, ReflTransGen.refl⟩⟩)
  obtain ⟨y, hy, hmin⟩ := exists_minimal hleft fun v hv hvv =>
    hnone ⟨v, hvv, (of_decide_eq_true (List.mem_filter.1 hv).2).2⟩
  obtain ⟨hyids, hytest⟩ := List.mem_filter.1 hy
  obtain ⟨hyleft, hyx⟩ := of_decide_eq_true hytest
  obtain ⟨z, hzy, hz⟩ := h.exists_adj_of_not_ready hready (mem_ids_iff.1 hyids) hyleft
  refine hmin z (List.mem_filter.2 ⟨mem_ids_iff.2 (hg.contains_of_adj hzy).1, ?_⟩)
    (TransGen.single hzy)
  exact decide_eq_true ⟨hz, hyx.head hzy⟩

/-- The placed vertices are in topological order once all are placed. -/
theorem Sound.orders {pending : List String} (h : Sound g pending p)
    (hall : p.placed.length = g.order) (hg : g.WellFormed) : g.Orders p.placed := by
  have hperm : p.placed.Perm g.ids := by
    refine h.subperm.perm_of_length_le (Nat.le_of_eq ?_)
    rw [hall, length_ids]
  refine ⟨hperm, fun s t hst => ?_⟩
  have ht : t ∈ p.placed := hperm.mem_iff.2 (mem_ids_iff.2 (hg.contains_of_adj hst).2)
  obtain ⟨before, after, hsplit⟩ := List.append_of_mem ht
  have hs : s ∈ before := h.ordered before t after hsplit s hst
  rw [hsplit]
  exact (List.singleton_sublist.2 hs).append (List.singleton_sublist.2 List.mem_cons_self)

/-- If every vertex is placed, as many are placed as there are vertices. -/
theorem Sound.length_eq_order {pending : List String} (h : Sound g pending p)
    (hall : ∀ x, g.contains x = true → x ∈ p.placed) : p.placed.length = g.order := by
  rw [← length_ids]
  refine Nat.le_antisymm h.subperm.length_le ?_
  exact (g.vertices.keys_nodup.subperm fun x hx => hall x (mem_ids_iff.1 hx)).length_le

end Placing

/-- The run is over after as many steps as there are vertices: all of them are placed, or none of
those left over is ready. -/
theorem topologicalOrder_cases (g : Digraph V D) :
    let p := (Placing.start g).run g g.order
    Placing.Sound g [] p ∧
      ((p.placed.length = g.order ∧ g.topologicalOrder = .ok p.placed) ∨
        (p.placed.length ≠ g.order ∧ p.ready.keys = [] ∧
          g.topologicalOrder = .error (.cycle p.blocked))) := by
  intro p
  obtain ⟨hsound, hend⟩ := (Placing.Sound.start g).run g.order
  refine ⟨hsound, ?_⟩
  have horder : g.topologicalOrder =
      if p.placed.length = g.order then .ok p.placed else .error (.cycle p.blocked) := rfl
  rw [horder]
  by_cases hall : p.placed.length = g.order
  · exact Or.inl ⟨hall, if_pos hall⟩
  · refine Or.inr ⟨hall, hend.resolve_right fun hlen => hall ?_, if_neg hall⟩
    exact hlen.trans (Nat.zero_add _)

/-- **A graph without cycles has a topological order**, and the run finds one. -/
theorem Acyclic.exists_orders {g : Digraph V D} (hg : g.WellFormed) (hacyc : g.Acyclic) :
    ∃ order, g.Orders order ∧ g.topologicalOrder = .ok order := by
  obtain ⟨hsound, ⟨hall, hok⟩ | ⟨hleft, hready, -⟩⟩ := g.topologicalOrder_cases
  · exact ⟨_, hsound.orders hall hg, hok⟩
  · refine absurd (hsound.length_eq_order fun x hx => ?_) hleft
    by_contra hplaced
    obtain ⟨v, hv, -⟩ := hsound.exists_cycle_of_not_ready hg hready hx hplaced
    exact hacyc v hv

end Groundwork.Digraph
