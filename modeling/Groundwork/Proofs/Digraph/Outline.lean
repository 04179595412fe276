/-
What a graph says, apart from how it is stored.

An outline gives a value to each vertex and properties to each edge, and nothing else: no lists, no
slots, no age.  Every operation has a plain meaning on outlines.  A graph that arises by operations
from the empty one replies as its outline does, and all its lookups and listings can be read off
the outline.

Main definitions:

* `Groundwork.Digraph.Outline` — two finite maps, from ids to values and from pairs of ids to
  properties;
* `Groundwork.Digraph.Outline.perform` — what an operation means for an outline;
* `Groundwork.Digraph.Outline.ListsVertices`, `Groundwork.Digraph.Outline.ListsEdges` — a list has
  each vertex, or each edge, of some sort once;
* `Groundwork.Digraph.Outline.Describes` — the lookups and listings of a graph are those of an
  outline;
* `Groundwork.Digraph.outline` — the outline of a graph.

Main results:

* `Groundwork.Digraph.outline_perform` — the outline after an operation, and the reply to it;
* `Groundwork.Digraph.WellFormed.describes` — a graph is described by its outline;
* `Groundwork.Digraph.inTurn_refines` — **whatever is done, a graph behaves as its outline**.
-/
import Groundwork.Proofs.Digraph.Operations
import Mathlib.Data.Set.Card
import Mathlib.Data.String.Basic

set_option relaxedAutoImplicit false
set_option autoImplicit false

namespace Groundwork

/-- New attributes replace old ones of the same name, and a payload is replaced if one is given. -/
theorem Properties.get?_attributes_merge {D : Type} (old new : Properties D) (k : String) :
    (old.merge new).attributes.get? k = (new.attributes.get? k).or (old.attributes.get? k) :=
  Table.get?_insertMany_toList old.attributes new.attributes k

namespace Digraph

variable {V D : Type}

/-! ### Outlines -/

/-- What a graph says about its vertices and edges. -/
@[ext]
structure Outline (V D : Type) where
  /-- The value of each vertex. -/
  value : String → Option V
  /-- What each edge carries. -/
  carried : String → String → Option (Properties D)

namespace Outline

/-- The outline without vertices. -/
def empty : Outline V D := ⟨fun _ => none, fun _ _ => none⟩

/-- Gives a value to a vertex, or takes it away. -/
def setVertex (m : Outline V D) (id : String) (v : Option V) : Outline V D :=
  { m with value := fun x => if id = x then v else m.value x }

/-- Gives properties to an edge, or takes them away. -/
def setEdge (m : Outline V D) (s t : String) (p : Option (Properties D)) : Outline V D :=
  { m with carried := fun x y => if x = s ∧ y = t then p else m.carried x y }

/-- Takes away a vertex and all edges that touch it. -/
def eraseVertex (m : Outline V D) (id : String) : Outline V D where
  value x := if id = x then none else m.value x
  carried x y := if x = id ∨ y = id then none else m.carried x y

/-- What an operation means for an outline. -/
def perform : Operation V D → Outline V D → Reply V D × Outline V D
  | .insertVertex id v, m => (.done, m.setVertex id (some v))
  | .eraseVertex id, m => (.erased (m.value id), m.eraseVertex id)
  | .connect s t p, m =>
    if (m.value s).isSome ∧ (m.value t).isSome then
      (.connected true, m.setEdge s t (some ((m.carried s t).elim p (·.merge p))))
    else (.connected false, m)
  | .disconnect s t, m =>
    match m.carried s t with
    | some p => (.disconnected (.ok p), m.setEdge s t none)
    | none => (.disconnected (.error (.edgeNotFound s t)), m)
  | .modify s t f, m => (.modified (m.carried s t), m.setEdge s t ((m.carried s t).map f))

/-- The edge from `s` to `t` with the values of its ends. -/
def edge? (m : Outline V D) (s t : String) : Option (Edge V D) := do
  let source ← m.value s
  let target ← m.value t
  let properties ← m.carried s t
  return { source, target, properties }

/-- The list has, in the order of their ids, the values of the vertices with the property `P`. -/
def ListsVertices (m : Outline V D) (P : String → Prop) (l : List V) : Prop :=
  ∃ ids : List String, ids.Pairwise (· < ·) ∧
    (∀ x, x ∈ ids ↔ (∃ v, m.value x = some v) ∧ P x) ∧ ids.map m.value = l.map some

/-- The list has, in some order, each edge once whose ends have the property `P`. -/
def ListsEdges (m : Outline V D) (P : String → String → Prop) (l : List (Edge V D)) : Prop :=
  ∃ ends : List (String × String), ends.Nodup ∧
    (∀ s t, (s, t) ∈ ends ↔ (∃ p, m.carried s t = some p) ∧ P s t) ∧
    (ends.map fun e => m.edge? e.1 e.2) = l.map some

/-- The lookups and listings of a graph are those of an outline. -/
structure Describes (m : Outline V D) (g : Digraph V D) : Prop where
  get? : ∀ x, g.get? x = m.value x
  contains : ∀ x, g.contains x = (m.value x).isSome
  order : {x | ∃ v, m.value x = some v}.encard = g.order
  size : {e : String × String | ∃ p, m.carried e.1 e.2 = some p}.encard = g.size
  ids_increase : g.ids.Pairwise (· < ·)
  mem_ids : ∀ x, x ∈ g.ids ↔ ∃ v, m.value x = some v
  values : m.ListsVertices (fun _ => True) g.values
  roots : m.ListsVertices (fun x => ∀ s, m.carried s x = none) g.roots
  properties? : ∀ s t, g.properties? s t = m.carried s t
  hasEdge : ∀ s t, g.hasEdge s t = (m.carried s t).isSome
  edge? : ∀ s t, g.edge? s t = m.edge? s t
  edges : m.ListsEdges (fun _ _ => True) g.edges
  /-- The edges that leave the vertices, one vertex after the other, are all edges. -/
  leaving : m.ListsEdges (fun _ _ => True) (g.ids.flatMap (g.edgesOf · .outgoing))
  /-- The edges that enter the vertices, one vertex after the other, are all edges. -/
  entering : m.ListsEdges (fun _ _ => True) (g.ids.flatMap (g.edgesOf · .incoming))
  outgoing : ∀ x, m.ListsEdges (fun s _ => s = x) (g.edgesOf x .outgoing)
  incoming : ∀ x, m.ListsEdges (fun _ t => t = x) (g.edgesOf x .incoming)
  /-- The vertices one step away are the far ends of the edges at a vertex. -/
  successors : ∀ x, g.neighbors x .outgoing = (g.edgesOf x .outgoing).map Edge.target
  predecessors : ∀ x, g.neighbors x .incoming = (g.edgesOf x .incoming).map Edge.source

end Outline

/-- The outline of a graph. -/
def outline (g : Digraph V D) : Outline V D := ⟨g.get?, g.properties?⟩

/-! ### Properties after each operation -/

theorem properties?_eq_none_iff {g : Digraph V D} {s t : String} :
    g.properties? s t = none ↔ ¬ g.Adj s t := by
  rw [← isSome_properties?_iff, Option.not_isSome_iff_eq_none]

theorem properties?_eraseVertex (g : Digraph V D) (id x y : String) :
    (g.eraseVertex id).properties? x y = if x = id ∨ y = id then none else g.properties? x y := by
  split
  case isTrue h =>
      rw [properties?_eq_none_iff, adj_eraseVertex]
      tauto
  case isFalse h =>
      have htest : (fun a : Arc D =>
          decide ((a.source != id && a.target != id) = true ∧ a.joins x y = true)) =
            Arc.joins x y := by
        funext a
        rw [Bool.eq_iff_iff, decide_eq_true_eq, Arc.joins_iff]
        constructor
        · exact And.right
        · rintro ⟨rfl, rfl⟩
          exact ⟨by simpa using h, rfl, rfl⟩
      rw [properties?, arc?, eraseVertex, List.find?_filter, htest]
      rfl

theorem properties?_modifyProperties (g : Digraph V D) (s t : String)
    (f : Properties D → Properties D) (x y : String) :
    (g.modifyProperties s t f).properties? x y =
      if x = s ∧ y = t then (g.properties? s t).map f else g.properties? x y := by
  have harc : (g.modifyProperties s t f).arc? x y = (g.arc? x y).map (Arc.revise s t f) := by
    have htest : Arc.joins x y ∘ Arc.revise s t f = (Arc.joins x y : Arc D → Bool) :=
      funext fun a => Arc.joins_revise s t x y f a
    rw [arc?, arcs_modifyProperties, List.find?_map, htest, arc?]
  rw [properties?, harc, Option.map_map]
  split
  case isTrue h =>
      obtain ⟨rfl, rfl⟩ := h
      rw [properties?, Option.map_map]
      refine Option.map_congr fun a ha => ?_
      have hjoins : a.joins x y = true := List.find?_some ha
      simp [Arc.revise, hjoins]
  case isFalse h =>
      rw [properties?]
      refine Option.map_congr fun a ha => ?_
      obtain ⟨-, rfl, rfl⟩ := of_arc?_eq_some ha
      have hjoins : a.joins s t = false := by
        rw [← Bool.not_eq_true, Arc.joins_iff]
        exact h
      simp [Arc.revise, hjoins]

theorem properties?_connect {g : Digraph V D} {s t : String} (p : Properties D)
    (hs : g.contains s = true) (ht : g.contains t = true) (x y : String) :
    (g.connect s t p).properties? x y =
      if x = s ∧ y = t then some ((g.properties? s t).elim p (·.merge p))
      else g.properties? x y := by
  by_cases hst : g.Adj s t
  · obtain ⟨q, hq⟩ := Option.isSome_iff_exists.1 (isSome_properties?_iff.2 hst)
    rw [connect_of_adj p hs ht hst, properties?_modifyProperties, hq]
    rfl
  · rw [properties?_eq_none_iff.2 hst, properties?, arc?, arcs_connect_of_not_adj p hs ht hst,
      List.find?_cons]
    split
    case h_1 hjoins =>
        rw [Arc.joins_iff] at hjoins
        rw [if_pos ⟨hjoins.1.symm, hjoins.2.symm⟩]
        rfl
    case h_2 hjoins =>
        rw [← Bool.not_eq_true, Arc.joins_iff] at hjoins
        rw [if_neg fun h => hjoins ⟨h.1.symm, h.2.symm⟩]
        rfl

theorem eq_properties?_of_disconnect {g g' : Digraph V D} {s t : String} {p : Properties D}
    (h : g.disconnect s t = .ok (p, g')) : g.properties? s t = some p := by
  rw [disconnect] at h
  split at h
  case h_1 => cases h
  case h_2 a ha =>
      cases h
      rw [properties?, ha]
      rfl

theorem properties?_of_disconnect_self {g g' : Digraph V D} {s t : String} {p : Properties D}
    (h : g.disconnect s t = .ok (p, g')) : g'.properties? s t = none := by
  rw [properties?_eq_none_iff, adj_of_disconnect h]
  exact fun hadj => hadj.2 ⟨rfl, rfl⟩

/-! ### One operation -/

theorem contains_eq_isSome_get? (g : Digraph V D) (x : String) :
    g.contains x = (g.get? x).isSome :=
  Table.contains_eq_isSome g.vertices x

theorem isSome_connect? (g : Digraph V D) (s t : String) (p : Properties D) :
    (g.connect? s t p).isSome = (g.contains s && g.contains t) := by
  rw [connect?]
  split
  case isTrue h =>
      rw [h]
      split <;> rfl
  case isFalse h => rw [Bool.not_eq_true _ |>.mp h, Option.isSome_none]

theorem outline_connect {g : Digraph V D} {s t : String} (p : Properties D)
    (hs : g.contains s = true) (ht : g.contains t = true) :
    (g.connect s t p).outline =
      g.outline.setEdge s t (some ((g.properties? s t).elim p (·.merge p))) :=
  Outline.ext (funext fun x => get?_connect g s t x p)
    (funext₂ fun x y => properties?_connect p hs ht x y)

theorem outline_of_disconnect {g g' : Digraph V D} {s t : String} {p : Properties D}
    (h : g.disconnect s t = .ok (p, g')) : g'.outline = g.outline.setEdge s t none := by
  refine Outline.ext (funext fun x => get?_of_disconnect h x) (funext₂ fun x y => ?_)
  change g'.properties? x y = if x = s ∧ y = t then none else g.properties? x y
  split
  case isTrue heq =>
      obtain ⟨rfl, rfl⟩ := heq
      exact properties?_of_disconnect_self h
  case isFalse hne => exact properties?_of_disconnect h hne

/-- **A graph replies to an operation as its outline does**, and is left with the outline that the
operation makes of its own. -/
theorem outline_perform (op : Operation V D) (g : Digraph V D) :
    Outline.perform op g.outline = ((op.perform g).1, (op.perform g).2.outline) := by
  cases op with
  | insertVertex id v =>
      refine Prod.ext rfl (Outline.ext (funext fun x => ?_) rfl)
      exact (get?_insertVertex g id x v).symm
  | eraseVertex id =>
      refine Prod.ext rfl (Outline.ext (funext fun x => ?_) (funext₂ fun x y => ?_))
      · exact (get?_eraseVertex g id x).symm
      · exact (properties?_eraseVertex g id x y).symm
  | connect s t p =>
      have hends : ((g.outline.value s).isSome ∧ (g.outline.value t).isSome) ↔
          g.contains s = true ∧ g.contains t = true := by
        rw [contains_eq_isSome_get?, contains_eq_isSome_get?]
        rfl
      rw [Outline.perform, Operation.perform, isSome_connect?]
      by_cases h : g.contains s = true ∧ g.contains t = true
      · rw [if_pos (hends.2 h), h.1, h.2, outline_connect p h.1 h.2]
        rfl
      · have hfalse : (g.contains s && g.contains t) = false := by simpa using h
        rw [if_neg (hends.not.2 h), hfalse, connect_of_missing p h]
  | disconnect s t =>
      rw [Outline.perform, Operation.perform]
      by_cases h : g.Adj s t
      · obtain ⟨p, g', hok⟩ := disconnect_of_adj h
        have hcarried : g.outline.carried s t = some p := eq_properties?_of_disconnect hok
        rw [hok, hcarried, outline_of_disconnect hok]
      · have hcarried : g.outline.carried s t = none := properties?_eq_none_iff.2 h
        rw [disconnect_of_not_adj h, hcarried]
  | modify s t f =>
      refine Prod.ext rfl (Outline.ext rfl (funext₂ fun x y => ?_))
      exact (properties?_modifyProperties g s t f x y).symm

/-! ### Listings of vertices -/

theorem keys_increase {ν : Type} (t : Table String ν) : t.keys.Pairwise (· < ·) :=
  List.pairwise_map.2 (t.sorted.imp fun h => compare_lt_iff_lt.1 h)

theorem mem_ids_iff_exists {g : Digraph V D} {x : String} :
    x ∈ g.ids ↔ ∃ v, g.outline.value x = some v :=
  mem_ids_iff.trans contains_iff

theorem listsVertices_values (g : Digraph V D) :
    g.outline.ListsVertices (fun _ => True) g.values :=
  ⟨g.ids, keys_increase g.vertices, fun _ => by rw [and_true]; exact mem_ids_iff_exists,
    g.vertices.map_get?_keys⟩

theorem isEmpty_arcsAt_incoming_iff {g : Digraph V D} {x : String} :
    (g.arcsAt x .incoming).isEmpty = true ↔ ∀ s, g.properties? s x = none := by
  simp only [properties?_eq_none_iff, List.isEmpty_iff, arcsAt, List.filter_eq_nil_iff, Adj,
    Arc.near, beq_iff_eq]
  grind

theorem listsVertices_roots (g : Digraph V D) :
    g.outline.ListsVertices (fun x => ∀ s, g.outline.carried s x = none) g.roots := by
  let untouched := g.vertices.filter fun id _ => (g.arcsAt id .incoming).isEmpty
  have hget : ∀ x v, untouched.get? x = some v ↔
      g.get? x = some v ∧ ∀ s, g.properties? s x = none := by
    intro x v
    rw [← isEmpty_arcsAt_incoming_iff, Table.get?_filter, Option.filter_eq_some_iff]
    rfl
  refine ⟨untouched.keys, keys_increase untouched, fun x => ?_, ?_⟩
  · rw [Table.mem_keys_iff, Table.contains_iff, ← exists_and_right]
    exact exists_congr (hget x)
  · rw [roots, ← Table.map_get?_keys]
    refine List.map_congr_left fun x hx => ?_
    obtain ⟨v, hv⟩ := Table.contains_iff.1 (Table.mem_keys_iff.1 hx)
    exact ((hget x v).1 hv).1.trans hv.symm

/-! ### Listings of edges -/

section Edges

variable {g : Digraph V D}

theorem WellFormed.edge?_outline (h : g.WellFormed) {a : Arc D} (ha : a ∈ g.arcs) :
    g.outline.edge? a.source a.target = g.resolve a := by
  have hcarried : g.properties? a.source a.target = some a.properties :=
    h.properties?_eq_some_iff.2 ⟨a, ha, rfl, rfl, rfl⟩
  simp [resolve, Outline.edge?, outline, hcarried]

/-- Both ends of an edge have values. -/
theorem WellFormed.exists_resolve (h : g.WellFormed) {a : Arc D} (ha : a ∈ g.arcs) :
    ∃ e, g.resolve a = some e ∧ g.get? a.source = some e.source ∧
      g.get? a.target = some e.target := by
  obtain ⟨source, hs⟩ := contains_iff.1 (h.source_mem a ha)
  obtain ⟨target, ht⟩ := contains_iff.1 (h.target_mem a ha)
  exact ⟨⟨source, target, a.properties⟩, by simp [resolve, hs, ht], hs, ht⟩

theorem WellFormed.map_resolve (h : g.WellFormed) {l : List (Arc D)} (hl : ∀ a ∈ l, a ∈ g.arcs) :
    l.map g.resolve = (l.filterMap g.resolve).map some := by
  induction l with
  | nil => rfl
  | cons a l ih =>
      obtain ⟨e, he, -⟩ := h.exists_resolve (hl a List.mem_cons_self)
      rw [List.map_cons, List.filterMap_cons_some he, List.map_cons, he,
        ih fun b hb => hl b (List.mem_cons_of_mem a hb)]

/-- Stored edges, each once, make a listing of what they say. -/
theorem WellFormed.listsEdges (h : g.WellFormed) {l : List (Arc D)} (hnodup : l.Nodup)
    {P : String → String → Prop} (hmem : ∀ a, a ∈ l ↔ a ∈ g.arcs ∧ P a.source a.target) :
    g.outline.ListsEdges P (l.filterMap g.resolve) := by
  refine ⟨l.map fun a => (a.source, a.target), ?_, fun s t => ?_, ?_⟩
  · refine hnodup.map_on fun a ha b hb heq => ?_
    obtain ⟨hs, ht⟩ := Prod.mk.inj heq
    exact h.eq_of_joins ((hmem a).1 ha).1 ((hmem b).1 hb).1 hs ht
  · rw [← Option.isSome_iff_exists]
    change _ ↔ (g.properties? s t).isSome = true ∧ P s t
    rw [isSome_properties?_iff, List.mem_map]
    constructor
    · rintro ⟨a, ha, heq⟩
      obtain ⟨rfl, rfl⟩ := Prod.mk.inj heq
      exact ⟨⟨a, ((hmem a).1 ha).1, rfl, rfl⟩, ((hmem a).1 ha).2⟩
    · rintro ⟨⟨a, ha, rfl, rfl⟩, hP⟩
      exact ⟨a, (hmem a).2 ⟨ha, hP⟩, rfl⟩
  · rw [List.map_map, ← h.map_resolve fun a ha => ((hmem a).1 ha).1]
    exact List.map_congr_left fun a ha => h.edge?_outline ((hmem a).1 ha).1

theorem mem_arcsAt {a : Arc D} {x : String} {d : Direction} :
    a ∈ g.arcsAt x d ↔ a ∈ g.arcs ∧ a.near d = x := by
  rw [arcsAt, List.mem_filter, beq_iff_eq]

/-- Going through all vertices meets each edge once on each side. -/
theorem WellFormed.listsEdges_flatMap (h : g.WellFormed) (d : Direction) :
    g.outline.ListsEdges (fun _ _ => True) (g.ids.flatMap (g.edgesOf · d)) := by
  have hflat : g.ids.flatMap (g.edgesOf · d) =
      (g.ids.flatMap (g.arcsAt · d)).filterMap g.resolve := List.filterMap_flatMap.symm
  rw [hflat]
  refine h.listsEdges (List.nodup_flatMap.2 ⟨fun x _ => h.arcs_nodup.filter _, ?_⟩) fun a => ?_
  · refine g.vertices.keys_nodup.imp fun hne => ?_
    rw [Function.onFun, List.disjoint_left]
    intro a ha hb
    exact hne ((mem_arcsAt.1 ha).2.symm.trans (mem_arcsAt.1 hb).2)
  · rw [List.mem_flatMap, and_true]
    constructor
    · rintro ⟨x, -, ha⟩
      exact (mem_arcsAt.1 ha).1
    · intro ha
      refine ⟨a.near d, mem_ids_iff.2 ?_, mem_arcsAt.2 ⟨ha, rfl⟩⟩
      cases d with
      | outgoing => exact h.source_mem a ha
      | incoming => exact h.target_mem a ha

theorem WellFormed.listsEdges_edges (h : g.WellFormed) :
    g.outline.ListsEdges (fun _ _ => True) g.edges := by
  have hperm : g.arcsBySlot.Perm g.arcs := List.mergeSort_perm _ _
  refine h.listsEdges (hperm.nodup_iff.2 h.arcs_nodup) fun a => ?_
  rw [hperm.mem_iff, and_true]

theorem WellFormed.listsEdges_outgoing (h : g.WellFormed) (x : String) :
    g.outline.ListsEdges (fun s _ => s = x) (g.edgesOf x .outgoing) :=
  h.listsEdges (h.arcs_nodup.filter _) fun _ => mem_arcsAt

theorem WellFormed.listsEdges_incoming (h : g.WellFormed) (x : String) :
    g.outline.ListsEdges (fun _ t => t = x) (g.edgesOf x .incoming) :=
  h.listsEdges (h.arcs_nodup.filter _) fun _ => mem_arcsAt

/-- The vertices one step away are the far ends of the edges at a vertex. -/
theorem WellFormed.neighbors_eq_map (h : g.WellFormed) {d : Direction} {far : Edge V D → V}
    (hfar : ∀ a ∈ g.arcs, ∀ e, g.resolve a = some e → g.get? (a.far d) = some (far e))
    (x : String) : g.neighbors x d = (g.edgesOf x d).map far := by
  rw [neighbors, adjacent, edgesOf, List.filterMap_map, List.map_filterMap]
  refine List.filterMap_congr fun a ha => ?_
  obtain ⟨e, he, -⟩ := h.exists_resolve (mem_arcsAt.1 ha).1
  rw [Function.comp, hfar a (mem_arcsAt.1 ha).1 e he, he]
  rfl

end Edges

/-! ### Counts -/

theorem encard_eq_length {α : Type} [DecidableEq α] {S : Set α} {l : List α} (hnodup : l.Nodup)
    (hmem : ∀ x, x ∈ l ↔ x ∈ S) : S.encard = l.length := by
  have hset : S = ↑l.toFinset := by
    ext x
    simpa using (hmem x).symm
  rw [hset, Set.encard_coe_eq_coe_finsetCard, List.toFinset_card_of_nodup hnodup]

theorem encard_vertices (g : Digraph V D) :
    {x | ∃ v, g.outline.value x = some v}.encard = g.order := by
  rw [← length_ids]
  exact encard_eq_length g.vertices.keys_nodup fun x => mem_ids_iff_exists

/-- Any listing of all edges tells their number. -/
theorem Outline.ListsEdges.encard_eq {m : Outline V D} {l : List (Edge V D)}
    (h : m.ListsEdges (fun _ _ => True) l) :
    {e : String × String | ∃ p, m.carried e.1 e.2 = some p}.encard = l.length := by
  obtain ⟨ends, hnodup, hmem, hends⟩ := h
  have hlen : ends.length = l.length := by simpa using congrArg List.length hends
  rw [← hlen]
  exact encard_eq_length hnodup fun e => (hmem e.1 e.2).trans (and_iff_left trivial)

theorem WellFormed.length_edges {g : Digraph V D} (h : g.WellFormed) : g.edges.length = g.size := by
  have hperm : g.arcsBySlot.Perm g.arcs := List.mergeSort_perm _ _
  have hlen := congrArg List.length (h.map_resolve fun a ha => hperm.mem_iff.1 ha)
  rw [List.length_map, List.length_map] at hlen
  exact hlen.symm.trans hperm.length_eq

/-! ### Graphs and their outlines -/

/-- **A graph is described by its outline.** -/
theorem WellFormed.describes {g : Digraph V D} (h : g.WellFormed) : g.outline.Describes g where
  get? _ := rfl
  contains := contains_eq_isSome_get? g
  order := encard_vertices g
  size := by rw [← h.length_edges, h.listsEdges_edges.encard_eq]
  ids_increase := keys_increase g.vertices
  mem_ids _ := mem_ids_iff_exists
  values := listsVertices_values g
  roots := listsVertices_roots g
  properties? _ _ := rfl
  hasEdge s t := by
    rw [Bool.eq_iff_iff, hasEdge_iff, ← isSome_properties?_iff]
    rfl
  edge? s t := by
    ext ⟨source, target, properties⟩
    rw [Digraph.edge?_eq_some_iff]
    simp [Outline.edge?, outline, Option.bind_eq_some_iff]
  edges := h.listsEdges_edges
  leaving := h.listsEdges_flatMap .outgoing
  entering := h.listsEdges_flatMap .incoming
  outgoing := h.listsEdges_outgoing
  incoming := h.listsEdges_incoming
  successors := h.neighbors_eq_map fun a ha e he => by
    obtain ⟨e', he', -, ht⟩ := h.exists_resolve ha
    cases he.symm.trans he'
    exact ht
  predecessors := h.neighbors_eq_map fun a ha e he => by
    obtain ⟨e', he', hs, -⟩ := h.exists_resolve ha
    cases he.symm.trans he'
    exact hs

theorem inTurn_outline (ops : List (Operation V D)) (g : Digraph V D) :
    inTurn Outline.perform ops g.outline =
      ((inTurn Operation.perform ops g).1, (inTurn Operation.perform ops g).2.outline) := by
  induction ops generalizing g with
  | nil => rfl
  | cons op ops ih =>
      rw [inTurn, inTurn, outline_perform]
      exact congrArg (fun r => (_ :: r.1, r.2)) (ih (op.perform g).2)

theorem outline_empty : ({} : Digraph V D).outline = Outline.empty := rfl

/-- **Whatever is done, a graph behaves as its outline.**  From the empty graph on, every reply is
that of the outline, and in the end all lookups and listings are those of the outline.  Edges
are listed by increasing slot, and merged properties are told by their lookups. -/
theorem inTurn_refines (ops : List (Operation V D)) :
    let g := (inTurn Operation.perform ops ({} : Digraph V D)).2
    let m := (inTurn Outline.perform ops (Outline.empty : Outline V D)).2
    (inTurn Operation.perform ops ({} : Digraph V D)).1 =
        (inTurn Outline.perform ops Outline.empty).1 ∧
      m.Describes g ∧ g.Numbered ∧ (g.arcsBySlot.map Arc.slot).Pairwise (· < ·) ∧
      ∀ (old new : Properties D) (k : String),
        (old.merge new).attributes.get? k = (new.attributes.get? k).or (old.attributes.get? k) ∧
          (old.merge new).data = new.data.or old.data := by
  intro g m
  have hrun := inTurn_outline ops ({} : Digraph V D)
  rw [outline_empty] at hrun
  have hm : m = g.outline := congrArg Prod.snd hrun
  have hnumbered : g.Numbered := numbered_inTurn ops
  refine ⟨(congrArg Prod.fst hrun).symm, hm ▸ (wellFormed_inTurn ops).describes, hnumbered,
    hnumbered.slots_increase, fun old new k => ⟨Properties.get?_attributes_merge old new k, rfl⟩⟩

end Digraph

end Groundwork
