/-
The edge relation of a directed graph.

A graph stores its edges in a list.  What the list says about which vertices are joined is the
relation `Digraph.Adj`, and each change of a graph is described by what it does to the vertices,
to this relation and to the properties of the edges.

Main definitions:

* `Groundwork.Digraph.Adj` — one vertex is joined to another by an edge;
* `Groundwork.Digraph.Leads` — one vertex leads to another along one edge or more;
* `Groundwork.Digraph.Acyclic` — no vertex leads to itself;
* `Groundwork.Digraph.WellFormed` — both ends of every edge are vertices, and no two edges join
  the same vertices in the same direction.

Main results:

* `Groundwork.Digraph.adj_eraseVertex`, `Groundwork.Digraph.adj_connect`,
  `Groundwork.Digraph.adj_of_disconnect` — the edges after each change;
* `Groundwork.Digraph.properties?_connect_empty`, `Groundwork.Digraph.properties?_of_disconnect` —
  the properties that a change leaves alone.
-/
import Groundwork.Digraph.Basic
import Groundwork.Proofs.Table.Lookup
import Mathlib.Logic.Relation

set_option relaxedAutoImplicit false
set_option autoImplicit false

namespace Groundwork

/-- Merging with nothing changes nothing. -/
@[simp] theorem Properties.merge_empty {D : Type} (p : Properties D) : p.merge {} = p := by
  cases p; rfl

namespace Digraph

variable {V D : Type}

/-! ### The relation -/

/-- There is an edge from `s` to `t`. -/
def Adj (g : Digraph V D) (s t : String) : Prop := ∃ a ∈ g.arcs, a.source = s ∧ a.target = t

/-- `t` lies downstream of `s`, one edge away or more. -/
def Leads (g : Digraph V D) : String → String → Prop := Relation.TransGen g.Adj

/-- No vertex lies downstream of itself; in particular no edge is a loop. -/
def Acyclic (g : Digraph V D) : Prop := ∀ v, ¬ g.Leads v v

/-- The edges fit the vertices. -/
structure WellFormed (g : Digraph V D) : Prop where
  /-- Every edge leaves a vertex. -/
  source_mem : ∀ a ∈ g.arcs, g.contains a.source = true
  /-- Every edge enters a vertex. -/
  target_mem : ∀ a ∈ g.arcs, g.contains a.target = true
  /-- Two edges differ in an end. -/
  simple : g.arcs.Pairwise fun a b => ¬ (a.source = b.source ∧ a.target = b.target)

theorem Arc.joins_iff {s t : String} {a : Arc D} :
    a.joins s t = true ↔ a.source = s ∧ a.target = t := by
  simp [Arc.joins]

theorem Arc.not_joins_iff {s t : String} {a : Arc D} :
    (!a.joins s t) = true ↔ ¬ (a.source = s ∧ a.target = t) := by
  rw [Bool.not_eq_true', ← Bool.not_eq_true, joins_iff]

theorem hasEdge_iff {g : Digraph V D} {s t : String} : g.hasEdge s t = true ↔ g.Adj s t := by
  simp [hasEdge, Adj, Arc.joins_iff]

theorem hasEdge_eq_false_iff {g : Digraph V D} {s t : String} :
    g.hasEdge s t = false ↔ ¬ g.Adj s t := by
  rw [← hasEdge_iff, Bool.not_eq_true]

/-- The edge that is found between two vertices joins them. -/
theorem of_arc?_eq_some {g : Digraph V D} {s t : String} {a : Arc D} (h : g.arc? s t = some a) :
    a ∈ g.arcs ∧ a.source = s ∧ a.target = t :=
  ⟨List.mem_of_find?_eq_some h, Arc.joins_iff.1 (List.find?_some h)⟩

theorem arc?_eq_none_iff {g : Digraph V D} {s t : String} : g.arc? s t = none ↔ ¬ g.Adj s t := by
  simp [arc?, Adj, Arc.joins_iff]

/-- Every edge carries something, which may be empty. -/
theorem isSome_properties?_iff {g : Digraph V D} {s t : String} :
    (g.properties? s t).isSome = true ↔ g.Adj s t := by
  rw [properties?, Option.isSome_map, ← not_iff_not, ← arc?_eq_none_iff,
    Option.not_isSome_iff_eq_none]

/-- Only edges carry something. -/
theorem adj_of_properties? {g : Digraph V D} {s t : String} {p : Properties D}
    (h : g.properties? s t = some p) : g.Adj s t :=
  isSome_properties?_iff.1 (by rw [h]; rfl)

theorem mem_adjacent_outgoing {g : Digraph V D} {s t : String} :
    t ∈ g.adjacent .outgoing s ↔ g.Adj s t := by
  simp [adjacent, arcsAt, Arc.near, Arc.far, Adj, and_assoc]

/-- The listed edges are the stored ones, with the values of their ends. -/
theorem mem_edges_iff {g : Digraph V D} {e : Edge V D} :
    e ∈ g.edges ↔ ∃ a ∈ g.arcs, g.get? a.source = some e.source ∧
      g.get? a.target = some e.target ∧ a.properties = e.properties := by
  have hmem (a : Arc D) : a ∈ g.arcsBySlot ↔ a ∈ g.arcs := (List.mergeSort_perm _ _).mem_iff
  obtain ⟨source, target, properties⟩ := e
  simp only [edges, List.mem_filterMap, hmem, resolve, Option.bind_eq_bind,
    Option.bind_eq_some_iff, Option.pure_def, Option.some_inj, Edge.mk.injEq]
  grind

/-- The edge between two vertices, with the values of its ends. -/
theorem edge?_eq_some_iff {g : Digraph V D} {s t : String} {e : Edge V D} :
    g.edge? s t = some e ↔ g.get? s = some e.source ∧ g.get? t = some e.target ∧
      g.properties? s t = some e.properties := by
  obtain ⟨source, target, properties⟩ := e
  rw [edge?, properties?]
  cases ha : g.arc? s t with
  | none => simp
  | some a =>
      obtain ⟨-, rfl, rfl⟩ := of_arc?_eq_some ha
      simp [resolve, Option.bind_eq_some_iff]

theorem contains_iff {g : Digraph V D} {x : String} :
    g.contains x = true ↔ ∃ v, g.get? x = some v :=
  Table.contains_iff

/-- All vertices of a list that are there have values. -/
theorem map_get?_eq_map_some {g : Digraph V D} {l : List String}
    (hl : ∀ x ∈ l, g.contains x = true) : l.map g.get? = (l.filterMap g.get?).map some := by
  induction l with
  | nil => rfl
  | cons x l ih =>
      obtain ⟨v, hv⟩ := contains_iff.1 (hl x List.mem_cons_self)
      have hrest := ih fun y hy => hl y (List.mem_cons_of_mem x hy)
      rw [List.map_cons, List.filterMap_cons_some hv, List.map_cons, hv, hrest]

theorem length_ids (g : Digraph V D) : g.ids.length = g.order := List.length_map _

theorem mem_ids_iff {g : Digraph V D} {x : String} : x ∈ g.ids ↔ g.contains x = true :=
  Table.mem_keys_iff

namespace WellFormed

variable {g : Digraph V D}

theorem contains_of_adj (h : g.WellFormed) {s t : String} (hst : g.Adj s t) :
    g.contains s = true ∧ g.contains t = true := by
  obtain ⟨a, ha, rfl, rfl⟩ := hst
  exact ⟨h.source_mem a ha, h.target_mem a ha⟩

/-- An edge is determined by its ends. -/
theorem eq_of_joins (h : g.WellFormed) {a b : Arc D} (ha : a ∈ g.arcs) (hb : b ∈ g.arcs)
    (hs : a.source = b.source) (ht : a.target = b.target) : a = b := by
  have hnodup : (g.arcs.map fun a => (a.source, a.target)).Nodup :=
    List.pairwise_map.2 (h.simple.imp fun hne heq => hne (Prod.mk.inj heq))
  exact List.inj_on_of_nodup_map hnodup ha hb (Prod.ext hs ht)

/-- What an edge carries is found between its ends. -/
theorem properties?_eq_some_iff (h : g.WellFormed) {s t : String} {p : Properties D} :
    g.properties? s t = some p ↔
      ∃ a ∈ g.arcs, a.source = s ∧ a.target = t ∧ a.properties = p := by
  rw [properties?, Option.map_eq_some_iff]
  constructor
  · rintro ⟨a, ha, hp⟩
    obtain ⟨hmem, hs, ht⟩ := of_arc?_eq_some ha
    exact ⟨a, hmem, hs, ht, hp⟩
  · rintro ⟨a, hmem, hs, ht, hp⟩
    cases hfound : g.arc? s t with
    | none => exact absurd ⟨a, hmem, hs, ht⟩ (arc?_eq_none_iff.1 hfound)
    | some b =>
        obtain ⟨hmem', hs', ht'⟩ := of_arc?_eq_some hfound
        have hab := h.eq_of_joins hmem hmem' (hs.trans hs'.symm) (ht.trans ht'.symm)
        exact ⟨b, rfl, hab ▸ hp⟩

/-- The listed edges, by their ends. -/
theorem mem_edges_iff_properties? (h : g.WellFormed) {e : Edge V D} :
    e ∈ g.edges ↔ ∃ s t, g.get? s = some e.source ∧ g.get? t = some e.target ∧
      g.properties? s t = some e.properties := by
  rw [mem_edges_iff]
  constructor
  · rintro ⟨a, ha, hs, ht, hp⟩
    exact ⟨a.source, a.target, hs, ht, h.properties?_eq_some_iff.2 ⟨a, ha, rfl, rfl, hp⟩⟩
  · rintro ⟨s, t, hs, ht, hp⟩
    obtain ⟨a, ha, rfl, rfl, hp'⟩ := h.properties?_eq_some_iff.1 hp
    exact ⟨a, ha, hs, ht, hp'⟩

/-- The edges at a vertex lead to different vertices. -/
theorem adjacent_nodup (h : g.WellFormed) (d : Direction) (x : String) :
    (g.adjacent d x).Nodup := by
  refine List.pairwise_map.2 ((h.simple.filter _).imp_of_mem ?_)
  intro a b ha hb hne hfar
  have hnear : a.near d = b.near d := by
    rw [beq_iff_eq.1 (List.mem_filter.1 ha).2, beq_iff_eq.1 (List.mem_filter.1 hb).2]
  cases d with
  | outgoing => exact hne ⟨hnear, hfar⟩
  | incoming => exact hne ⟨hfar, hnear⟩

end WellFormed

/-! ### Vertices that come and go -/

theorem get?_insertVertex (g : Digraph V D) (id x : String) (v : V) :
    (g.insertVertex id v).get? x = if id = x then some v else g.get? x :=
  Table.get?_insert g.vertices id x v

theorem contains_insertVertex (g : Digraph V D) (id x : String) (v : V) :
    (g.insertVertex id v).contains x = true ↔ x = id ∨ g.contains x = true := by
  rw [contains, insertVertex, Table.contains_insert, Bool.or_eq_true, decide_eq_true_eq, eq_comm]
  rfl

theorem adj_insertVertex (g : Digraph V D) (id : String) (v : V) (s t : String) :
    (g.insertVertex id v).Adj s t ↔ g.Adj s t :=
  Iff.rfl

theorem WellFormed.insertVertex {g : Digraph V D} (h : g.WellFormed) (id : String) (v : V) :
    (g.insertVertex id v).WellFormed where
  source_mem a ha := (contains_insertVertex g id _ v).2 (Or.inr (h.source_mem a ha))
  target_mem a ha := (contains_insertVertex g id _ v).2 (Or.inr (h.target_mem a ha))
  simple := h.simple

theorem get?_eraseVertex (g : Digraph V D) (id x : String) :
    (g.eraseVertex id).get? x = if id = x then none else g.get? x :=
  Table.get?_erase g.vertices id x

theorem contains_eraseVertex (g : Digraph V D) (id x : String) :
    (g.eraseVertex id).contains x = true ↔ x ≠ id ∧ g.contains x = true := by
  rw [contains, eraseVertex, Table.contains_erase, Bool.and_eq_true, decide_eq_true_eq, ne_comm]
  rfl

theorem adj_eraseVertex (g : Digraph V D) (id s t : String) :
    (g.eraseVertex id).Adj s t ↔ g.Adj s t ∧ s ≠ id ∧ t ≠ id := by
  simp only [Adj, eraseVertex, List.mem_filter, Bool.and_eq_true, bne_iff_ne, ne_eq]
  constructor
  · rintro ⟨a, ⟨ha, hs, ht⟩, rfl, rfl⟩
    exact ⟨⟨a, ha, rfl, rfl⟩, hs, ht⟩
  · rintro ⟨⟨a, ha, rfl, rfl⟩, hs, ht⟩
    exact ⟨a, ⟨ha, hs, ht⟩, rfl, rfl⟩

theorem WellFormed.eraseVertex {g : Digraph V D} (h : g.WellFormed) (id : String) :
    (g.eraseVertex id).WellFormed := by
  have hmem : ∀ a ∈ (g.eraseVertex id).arcs, a ∈ g.arcs ∧ a.source ≠ id ∧ a.target ≠ id := by
    intro a ha
    simpa [Digraph.eraseVertex] using ha
  refine ⟨fun a ha => ?_, fun a ha => ?_, h.simple.filter _⟩
  · exact (contains_eraseVertex g id _).2 ⟨(hmem a ha).2.1, h.source_mem a (hmem a ha).1⟩
  · exact (contains_eraseVertex g id _).2 ⟨(hmem a ha).2.2, h.target_mem a (hmem a ha).1⟩

/-! ### Edges that come -/

theorem vertices_connect (g : Digraph V D) (s t : String) (p : Properties D) :
    (g.connect s t p).vertices = g.vertices := by
  rw [connect, connect?]
  split
  · split <;> rfl
  · rfl

theorem connect_of_adj {g : Digraph V D} {s t : String} (p : Properties D)
    (hs : g.contains s = true) (ht : g.contains t = true) (h : g.Adj s t) :
    g.connect s t p = g.modifyProperties s t (·.merge p) := by
  simp [connect, connect?, hs, ht, hasEdge_iff.2 h]

theorem arcs_connect_of_not_adj {g : Digraph V D} {s t : String} (p : Properties D)
    (hs : g.contains s = true) (ht : g.contains t = true) (h : ¬ g.Adj s t) :
    (g.connect s t p).arcs = ⟨s, t, g.nextSlot, p⟩ :: g.arcs := by
  simp [connect, connect?, hs, ht, hasEdge_eq_false_iff.2 h]

theorem connect_of_missing {g : Digraph V D} {s t : String} (p : Properties D)
    (h : ¬ (g.contains s = true ∧ g.contains t = true)) : g.connect s t p = g := by
  have hb : (g.contains s && g.contains t) = false := by simpa using h
  simp [connect, connect?, hb]

/-- An edge after the properties of the edge from `s` to `t` were changed. -/
def Arc.revise (s t : String) (f : Properties D → Properties D) (a : Arc D) : Arc D :=
  if a.joins s t then { a with properties := f a.properties } else a

@[simp] theorem Arc.source_revise (s t : String) (f : Properties D → Properties D) (a : Arc D) :
    (a.revise s t f).source = a.source := by
  rw [revise]; split <;> rfl

@[simp] theorem Arc.target_revise (s t : String) (f : Properties D → Properties D) (a : Arc D) :
    (a.revise s t f).target = a.target := by
  rw [revise]; split <;> rfl

@[simp] theorem Arc.joins_revise (s t x y : String) (f : Properties D → Properties D)
    (a : Arc D) : (a.revise s t f).joins x y = a.joins x y := by
  simp [joins]

theorem arcs_modifyProperties (g : Digraph V D) (s t : String)
    (f : Properties D → Properties D) :
    (g.modifyProperties s t f).arcs = g.arcs.map (Arc.revise s t f) := rfl

/-- Changing properties moves no edge. -/
theorem adj_modifyProperties (g : Digraph V D) (s t : String) (f : Properties D → Properties D)
    (x y : String) : (g.modifyProperties s t f).Adj x y ↔ g.Adj x y := by
  simp [Adj, arcs_modifyProperties]

/-- The edges after one was added. -/
theorem adj_connect (g : Digraph V D) (s t : String) (p : Properties D) (x y : String) :
    (g.connect s t p).Adj x y ↔
      g.Adj x y ∨ (x = s ∧ y = t ∧ g.contains s = true ∧ g.contains t = true) := by
  by_cases hends : g.contains s = true ∧ g.contains t = true
  · by_cases hst : g.Adj s t
    · rw [connect_of_adj p hends.1 hends.2 hst, adj_modifyProperties]
      constructor
      · exact Or.inl
      · rintro (h | ⟨rfl, rfl, -⟩)
        · exact h
        · exact hst
    · simp only [Adj, arcs_connect_of_not_adj p hends.1 hends.2 hst, List.exists_mem_cons_iff,
        hends.1, hends.2, and_true]
      rw [or_comm, eq_comm (a := s), eq_comm (a := t)]
  · rw [connect_of_missing p hends]
    tauto

/-- The other edges stay as they are, in their order. -/
theorem filter_arcs_connect (g : Digraph V D) (s t : String) (p : Properties D) :
    (g.connect s t p).arcs.filter (fun a => !a.joins s t) =
      g.arcs.filter (fun a => !a.joins s t) := by
  by_cases hends : g.contains s = true ∧ g.contains t = true
  · by_cases hst : g.Adj s t
    · rw [connect_of_adj p hends.1 hends.2 hst, arcs_modifyProperties, List.filter_map]
      have htest : (fun a : Arc D => !a.joins s t) ∘ Arc.revise s t (·.merge p) =
          fun a => !a.joins s t := funext fun a => by simp
      rw [htest]
      refine (List.map_congr_left fun a ha => ?_).trans (List.map_id _)
      have hjoins : a.joins s t = false := by simpa using (List.mem_filter.1 ha).2
      rw [Arc.revise, hjoins]
      rfl
    · have hself : Arc.joins s t ⟨s, t, g.nextSlot, p⟩ = true := Arc.joins_iff.2 ⟨rfl, rfl⟩
      rw [arcs_connect_of_not_adj p hends.1 hends.2 hst, List.filter_cons_of_neg]
      simp [hself]
  · rw [connect_of_missing p hends]

theorem contains_connect (g : Digraph V D) (s t x : String) (p : Properties D) :
    (g.connect s t p).contains x = g.contains x := by
  rw [contains, vertices_connect, contains]

theorem get?_connect (g : Digraph V D) (s t x : String) (p : Properties D) :
    (g.connect s t p).get? x = g.get? x := by
  rw [get?, vertices_connect, get?]

theorem WellFormed.connect {g : Digraph V D} (h : g.WellFormed) (s t : String)
    (p : Properties D) : (g.connect s t p).WellFormed := by
  have hadj : ∀ a ∈ (g.connect s t p).arcs,
      g.contains a.source = true ∧ g.contains a.target = true := by
    intro a ha
    rcases (adj_connect g s t p a.source a.target).1 ⟨a, ha, rfl, rfl⟩ with hold | ⟨hs, ht, hends⟩
    · exact h.contains_of_adj hold
    · rw [hs, ht]
      exact hends
  refine ⟨fun a ha => ?_, fun a ha => ?_, ?_⟩
  · rw [contains_connect]
    exact (hadj a ha).1
  · rw [contains_connect]
    exact (hadj a ha).2
  · by_cases hends : g.contains s = true ∧ g.contains t = true
    · by_cases hst : g.Adj s t
      · rw [connect_of_adj p hends.1 hends.2 hst, arcs_modifyProperties, List.pairwise_map]
        simpa using h.simple
      · rw [arcs_connect_of_not_adj p hends.1 hends.2 hst]
        exact List.pairwise_cons.2 ⟨fun b hb heq => hst ⟨b, hb, heq.1.symm, heq.2.symm⟩, h.simple⟩
    · rw [connect_of_missing p hends]
      exact h.simple

/-! ### Edges that go -/

/-- What is left after an edge was removed. -/
theorem of_disconnect {g g' : Digraph V D} {s t : String} {p : Properties D}
    (h : g.disconnect s t = .ok (p, g')) :
    g.Adj s t ∧ g'.vertices = g.vertices ∧ g'.arcs = g.arcs.filter fun a => !a.joins s t := by
  rw [disconnect] at h
  split at h
  case h_1 => cases h
  case h_2 a ha =>
      cases h
      obtain ⟨hmem, hs, ht⟩ := of_arc?_eq_some ha
      exact ⟨⟨a, hmem, hs, ht⟩, rfl, rfl⟩

/-- An edge that is there can be removed. -/
theorem disconnect_of_adj {g : Digraph V D} {s t : String} (h : g.Adj s t) :
    ∃ p g', g.disconnect s t = .ok (p, g') := by
  cases ha : g.arc? s t with
  | none => exact absurd h (arc?_eq_none_iff.1 ha)
  | some a => exact ⟨_, _, by rw [disconnect, ha]⟩

theorem disconnect_of_not_adj {g : Digraph V D} {s t : String} (h : ¬ g.Adj s t) :
    g.disconnect s t = .error (.edgeNotFound s t) := by
  rw [disconnect, arc?_eq_none_iff.2 h]

section Disconnect

variable {g g' : Digraph V D} {s t : String} {p : Properties D}

/-- The edges after one was removed. -/
theorem adj_of_disconnect (h : g.disconnect s t = .ok (p, g')) (x y : String) :
    g'.Adj x y ↔ g.Adj x y ∧ ¬ (x = s ∧ y = t) := by
  rw [Adj, (of_disconnect h).2.2]
  constructor
  · rintro ⟨a, ha, rfl, rfl⟩
    obtain ⟨hmem, hjoins⟩ := List.mem_filter.1 ha
    exact ⟨⟨a, hmem, rfl, rfl⟩, Arc.not_joins_iff.1 hjoins⟩
  · rintro ⟨⟨a, ha, rfl, rfl⟩, hne⟩
    exact ⟨a, List.mem_filter.2 ⟨ha, Arc.not_joins_iff.2 hne⟩, rfl, rfl⟩

theorem get?_of_disconnect (h : g.disconnect s t = .ok (p, g')) (x : String) :
    g'.get? x = g.get? x := by
  rw [get?, (of_disconnect h).2.1, get?]

theorem contains_of_disconnect (h : g.disconnect s t = .ok (p, g')) (x : String) :
    g'.contains x = g.contains x := by
  rw [contains, (of_disconnect h).2.1, contains]

theorem WellFormed.disconnect (hg : g.WellFormed) (h : g.disconnect s t = .ok (p, g')) :
    g'.WellFormed := by
  have harcs : ∀ a ∈ g'.arcs, a ∈ g.arcs := by
    intro a ha
    rw [(of_disconnect h).2.2] at ha
    exact (List.mem_filter.1 ha).1
  refine ⟨fun a ha => ?_, fun a ha => ?_, ?_⟩
  · rw [contains_of_disconnect h]
    exact hg.source_mem a (harcs a ha)
  · rw [contains_of_disconnect h]
    exact hg.target_mem a (harcs a ha)
  · rw [(of_disconnect h).2.2]
    exact hg.simple.filter _

end Disconnect

/-! ### Properties that stay -/

/-- Adding an edge without properties where there is one changes nothing. -/
theorem connect_empty_of_adj {g : Digraph V D} {s t : String} (hs : g.contains s = true)
    (ht : g.contains t = true) (h : g.Adj s t) : g.connect s t {} = g := by
  have hid : Arc.revise s t (·.merge {}) = (id : Arc D → Arc D) := by
    funext a
    rw [Arc.revise, Properties.merge_empty]
    split <;> rfl
  rw [connect_of_adj _ hs ht h, modifyProperties]
  change ({ g with arcs := g.arcs.map (Arc.revise s t (·.merge {})) } : Digraph V D) = g
  rw [hid, List.map_id]

/-- Adding an edge without properties changes the properties of no edge. -/
theorem properties?_connect_empty {g : Digraph V D} (s t : String) {x y : String}
    (h : g.Adj x y) : (g.connect s t {}).properties? x y = g.properties? x y := by
  by_cases hends : g.contains s = true ∧ g.contains t = true
  · by_cases hst : g.Adj s t
    · rw [connect_empty_of_adj hends.1 hends.2 hst]
    · rw [properties?, arc?, arcs_connect_of_not_adj _ hends.1 hends.2 hst, List.find?_cons_of_neg]
      · rfl
      · rw [Arc.joins_iff]
        rintro ⟨rfl, rfl⟩
        exact hst h
  · rw [connect_of_missing _ hends]

/-- An edge that was added without properties has none. -/
theorem eq_empty_of_properties?_connect {g : Digraph V D} {s t x y : String} {p : Properties D}
    (h : ¬ g.Adj x y) (hp : (g.connect s t {}).properties? x y = some p) : p = {} := by
  obtain ⟨a, ha, rfl⟩ := Option.map_eq_some_iff.1 hp
  obtain ⟨hmem, hx, hy⟩ := of_arc?_eq_some ha
  by_cases hends : g.contains s = true ∧ g.contains t = true
  · by_cases hst : g.Adj s t
    · rw [connect_empty_of_adj hends.1 hends.2 hst] at hmem
      exact absurd ⟨a, hmem, hx, hy⟩ h
    · rw [arcs_connect_of_not_adj _ hends.1 hends.2 hst] at hmem
      rcases List.mem_cons.1 hmem with rfl | hmem
      · rfl
      · exact absurd ⟨a, hmem, hx, hy⟩ h
  · rw [connect_of_missing _ hends] at hmem
    exact absurd ⟨a, hmem, hx, hy⟩ h

theorem properties?_of_disconnect {g g' : Digraph V D} {s t x y : String} {p : Properties D}
    (h : g.disconnect s t = .ok (p, g')) (hne : ¬ (x = s ∧ y = t)) :
    g'.properties? x y = g.properties? x y := by
  have htest : (fun a : Arc D => decide ((!a.joins s t) = true ∧ a.joins x y = true)) =
      Arc.joins x y := by
    funext a
    rw [Bool.eq_iff_iff, decide_eq_true_eq, Arc.not_joins_iff, Arc.joins_iff]
    constructor
    · exact And.right
    · rintro ⟨rfl, rfl⟩
      exact ⟨hne, rfl, rfl⟩
  rw [properties?, arc?, (of_disconnect h).2.2, List.find?_filter, htest]
  rfl

end Digraph

end Groundwork
