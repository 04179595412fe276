/-
Rewriting the edges of a graph.

Some edges go and others come in their place, which may need new vertices.  A single round of such
changes is known exactly.  Several rounds in turn are known up to the edges that one round adds and
another removes, where the order of the rounds decides.

Main definitions:

* `Groundwork.Digraph.vertexSet`, `Groundwork.Digraph.edgeSet` — a graph as two sets;
* `Groundwork.Digraph.neighbours`, `Groundwork.Digraph.proper`, `Groundwork.Digraph.ends` — the
  pairs that a list of vertices goes through, the pairs that are no loops, and the ends of pairs;
* `Groundwork.Digraph.Rewires` — one round, which removes edges and then adds edges and vertices;
* `Groundwork.Digraph.Rewrites` — several rounds in turn.

Main results:

* `Groundwork.Digraph.Rewires.andAdd` — a round that goes on with edges and vertices to add;
* `Groundwork.Digraph.Rewrites.andRewire` — rounds in turn;
* `Groundwork.Digraph.Rewires.leads` — a round keeps what lies downstream of what if there is
  another way along each edge that it removes.
-/
import Groundwork.Proofs.Digraph.Adjacency
import Mathlib.Data.Set.Insert
import Mathlib.Order.BooleanAlgebra.Set

set_option relaxedAutoImplicit false
set_option autoImplicit false

namespace Groundwork.Digraph

open Relation

variable {V D : Type}

/-! ### Graphs as sets -/

/-- The ids of the vertices. -/
def vertexSet (g : Digraph V D) : Set String := {x | g.contains x = true}

/-- The pairs of vertices that an edge joins. -/
def edgeSet (g : Digraph V D) : Set (String × String) := {e | g.Adj e.1 e.2}

@[simp] theorem mem_vertexSet {g : Digraph V D} {x : String} :
    x ∈ g.vertexSet ↔ g.contains x = true := Iff.rfl

@[simp] theorem mem_edgeSet {g : Digraph V D} {x y : String} :
    (x, y) ∈ g.edgeSet ↔ g.Adj x y := Iff.rfl

/-- The pairs of neighbours in a list. -/
def neighbours (l : List String) : Set (String × String) := {e | e ∈ l.zip l.tail}

theorem neighbours_cons_cons (a b : String) (l : List String) :
    neighbours (a :: b :: l) = {(a, b)} ∪ neighbours (b :: l) := by
  ext e
  simp [neighbours]

/-- The pairs of different texts. -/
def proper (H : Set (String × String)) : Set (String × String) := {e ∈ H | e.1 ≠ e.2}

theorem proper_singleton_of_eq {x y : String} (h : x = y) : proper {(x, y)} = ∅ := by
  ext e
  simp only [proper, Set.mem_ofPred_eq, Set.mem_singleton_iff, Set.mem_empty_iff_false, iff_false]
  rintro ⟨rfl, hne⟩
  exact hne h

theorem proper_singleton_of_ne {x y : String} (h : x ≠ y) : proper {(x, y)} = {(x, y)} := by
  ext e
  simp only [proper, Set.mem_ofPred_eq, Set.mem_singleton_iff, and_iff_left_iff_imp]
  rintro rfl
  exact h

theorem proper_union (H H' : Set (String × String)) :
    proper (H ∪ H') = proper H ∪ proper H' := by
  ext e
  simp [proper, or_and_right]

/-- Neighbours in a list without repetitions differ. -/
theorem ne_of_mem_neighbours {l : List String} (h : l.Nodup) {x y : String}
    (hmem : (x, y) ∈ neighbours l) : x ≠ y := by
  induction l with
  | nil => exact absurd hmem List.not_mem_nil
  | cons a l ih =>
      match l with
      | [] => exact absurd hmem List.not_mem_nil
      | b :: rest =>
          obtain ⟨hnew, hrest⟩ := List.nodup_cons.1 h
          rw [neighbours_cons_cons] at hmem
          rcases hmem with heq | hmem
          · cases heq
            exact fun hab => hnew (hab ▸ List.mem_cons_self)
          · exact ih hrest hmem

/-- The texts at the ends of pairs. -/
def ends (H : Set (String × String)) : Set String := {x | ∃ e ∈ H, x = e.1 ∨ x = e.2}

theorem ends_empty : ends ∅ = ∅ := by
  ext x
  simp [ends]

theorem ends_singleton (x y : String) : ends {(x, y)} = {x} ∪ {y} := by
  ext z
  simp [ends, or_comm]

theorem ends_union (H H' : Set (String × String)) : ends (H ∪ H') = ends H ∪ ends H' := by
  ext x
  simp [ends, or_and_right, exists_or]

/-- A text of a list is the first one, or stands at the end of a pair of different neighbours. -/
theorem eq_or_mem_ends_of_mem {a x : String} {l : List String} (hx : x ∈ a :: l) :
    x = a ∨ x ∈ ends (proper (neighbours (a :: l))) := by
  induction l generalizing a with
  | nil => exact Or.inl (List.mem_singleton.1 hx)
  | cons b l ih =>
      rw [neighbours_cons_cons, proper_union, ends_union]
      rcases List.mem_cons.1 hx with rfl | hx
      · exact Or.inl rfl
      · rcases ih hx with rfl | hmem
        · by_cases hax : x = a
          · exact Or.inl hax
          · exact Or.inr (Or.inl ⟨(a, x), ⟨rfl, Ne.symm hax⟩, Or.inr rfl⟩)
        · exact Or.inr (Or.inr hmem)

/-- Neighbours stand in the list. -/
theorem mem_of_mem_ends_neighbours {l : List String} {x : String}
    (hx : x ∈ ends (neighbours l)) : x ∈ l := by
  obtain ⟨⟨a, b⟩, hab, rfl | rfl⟩ := hx
  · exact (List.of_mem_zip hab).1
  · exact List.mem_of_mem_tail (List.of_mem_zip hab).2

/-- A relation between neighbours leads from the first text of a list to all others. -/
theorem reflTransGen_of_neighbours {R : String → String → Prop} {a : String} {l : List String}
    (h : ∀ x y, (x, y) ∈ proper (neighbours (a :: l)) → R x y) {b : String} (hb : b ∈ a :: l) :
    ReflTransGen R a b := by
  induction l generalizing a with
  | nil => exact List.mem_singleton.1 hb ▸ ReflTransGen.refl
  | cons c l ih =>
      have hrest : ∀ x y, (x, y) ∈ proper (neighbours (c :: l)) → R x y := by
        rintro x y ⟨hmem, hne⟩
        exact h x y ⟨neighbours_cons_cons a c l ▸ Or.inr hmem, hne⟩
      rcases List.mem_cons.1 hb with rfl | hb
      · exact ReflTransGen.refl
      · by_cases hac : a = c
        · exact hac ▸ ih hrest hb
        · have hfirst : R a c := h a c ⟨neighbours_cons_cons a c l ▸ Or.inl rfl, hac⟩
          exact (ih hrest hb).head hfirst

/-! ### One round -/

/-- The graph `g'` is `g` without the edges `X`, with the vertices `Z` and the edges `H` added.
Whatever stays is as it was. -/
structure Rewires (g g' : Digraph V D) (X H : Set (String × String)) (Z : Set String) : Prop where
  /-- The vertices are the old ones and those of `Z`. -/
  vertices : g'.vertexSet = g.vertexSet ∪ Z
  /-- Every old vertex keeps its value. -/
  kept : ∀ x v, g.get? x = some v → g'.get? x = some v
  /-- The edges are the old ones without those of `X`, and those of `H`. -/
  edges : g'.edgeSet = (g.edgeSet \ X) ∪ H
  /-- Every edge that stays keeps its properties. -/
  properties : ∀ x y, (x, y) ∈ g.edgeSet \ X → g'.properties? x y = g.properties? x y
  /-- Every edge that does not merely stay comes without properties. -/
  plain : ∀ x y p, (x, y) ∉ g.edgeSet \ X → g'.properties? x y = some p → p = {}

namespace Rewires

variable {g g' g'' : Digraph V D} {X H H' : Set (String × String)} {Z Z' : Set String}

theorem refl (g : Digraph V D) : Rewires g g ∅ ∅ ∅ where
  vertices := by simp
  kept _ _ h := h
  edges := by simp
  properties _ _ _ := rfl
  plain x y p hxy hp := absurd ⟨adj_of_properties? hp, Set.notMem_empty _⟩ hxy

/-- The same round, described in other words. -/
theorem congr {X' : Set (String × String)} (h : Rewires g g' X H Z) (hX : X = X') (hH : H = H')
    (hZ : g.vertexSet ∪ Z = g.vertexSet ∪ Z') : Rewires g g' X' H' Z' where
  vertices := h.vertices.trans hZ
  kept := h.kept
  edges := by rw [h.edges, hX, hH]
  properties := hX ▸ h.properties
  plain := hX ▸ h.plain

/-- A round may go on with edges and vertices to add. -/
theorem andAdd (h : Rewires g g' X H Z) (h' : Rewires g' g'' ∅ H' Z') :
    Rewires g g'' X (H ∪ H') (Z ∪ Z') where
  vertices := by rw [h'.vertices, h.vertices, Set.union_assoc]
  kept x v hx := h'.kept x v (h.kept x v hx)
  edges := by rw [h'.edges, h.edges, Set.sdiff_empty, Set.union_assoc]
  properties x y hxy := by
    have hstays : (x, y) ∈ g'.edgeSet \ ∅ := by
      rw [Set.sdiff_empty, h.edges]
      exact Or.inl hxy
    rw [h'.properties x y hstays, h.properties x y hxy]
  plain x y p hxy hp := by
    by_cases hold : (x, y) ∈ g'.edgeSet \ ∅
    · rw [h'.properties x y hold] at hp
      exact h.plain x y p hxy hp
    · exact h'.plain x y p hold hp

theorem insertVertex {id : String} (hid : g.get? id = none) (v : V) :
    Rewires g (g.insertVertex id v) ∅ ∅ {id} where
  vertices := by
    ext x
    rw [mem_vertexSet, contains_insertVertex, or_comm]
    rfl
  kept x w hx := by
    have hne : id ≠ x := by
      rintro rfl
      rw [hid] at hx
      cases hx
    rw [get?_insertVertex, if_neg hne, hx]
  edges := by
    ext e
    simp [edgeSet, adj_insertVertex]
  properties _ _ _ := rfl
  plain x y p hxy hp := by
    have hadj : g.Adj x y := adj_of_properties? hp
    exact absurd ⟨hadj, Set.notMem_empty _⟩ hxy

theorem connect {s t : String} (hs : g.contains s = true) (ht : g.contains t = true) :
    Rewires g (g.connect s t {}) ∅ {(s, t)} ∅ where
  vertices := by
    ext x
    simp [contains_connect]
  kept x v hx := by rw [get?_connect, hx]
  edges := by
    ext ⟨x, y⟩
    simp [adj_connect, hs, ht, or_comm]
  properties x y hxy := properties?_connect_empty s t hxy.1
  plain x y p hxy hp := by
    have hnew : ¬ g.Adj x y := fun hadj => hxy ⟨hadj, Set.notMem_empty _⟩
    exact eq_empty_of_properties?_connect hnew hp

theorem disconnect {s t : String} {p : Properties D} (h : g.disconnect s t = .ok (p, g')) :
    Rewires g g' {(s, t)} ∅ ∅ where
  vertices := by
    ext x
    simp [contains_of_disconnect h]
  kept x v hx := by rw [get?_of_disconnect h, hx]
  edges := by
    ext ⟨x, y⟩
    simp [adj_of_disconnect h]
  properties x y hxy := properties?_of_disconnect h fun heq => hxy.2 (Prod.ext heq.1 heq.2)
  plain x y p hxy hp := by
    obtain ⟨hadj, hne⟩ := (adj_of_disconnect h x y).1 (adj_of_properties? hp)
    exact absurd ⟨hadj, fun heq => hne (Prod.mk.inj heq)⟩ hxy

/-- A round tells what the edges carry in the end. -/
theorem properties?_eq {Z' : Set String} (h : Rewires g g' X H Z) (h' : Rewires g g'' X H Z') :
    g'.properties? = g''.properties? := by
  funext x y
  by_cases hstays : (x, y) ∈ g.edgeSet \ X
  · rw [h.properties x y hstays, h'.properties x y hstays]
  · have hadj : g'.Adj x y ↔ g''.Adj x y := by
      rw [← mem_edgeSet, h.edges, ← h'.edges, mem_edgeSet]
    cases hp : g'.properties? x y with
    | none =>
        rw [← Option.not_isSome_iff_eq_none, isSome_properties?_iff, hadj] at hp
        exact (Option.not_isSome_iff_eq_none.1 (isSome_properties?_iff.not.2 hp)).symm
    | some p =>
        obtain ⟨q, hq⟩ := Option.isSome_iff_exists.1
          (isSome_properties?_iff.2 (hadj.1 (adj_of_properties? hp)))
        rw [hq, h.plain x y p hstays hp, h'.plain x y q hstays hq]

/-- What lies downstream of what stays so if there is another way along each edge that goes. -/
theorem leads (h : Rewires g g' X H Z) (hX : ∀ x y, (x, y) ∈ X → g.Adj x y → g'.Leads x y)
    {u v : String} (huv : g.Leads u v) : g'.Leads u v := by
  have hstep : ∀ x y, g.Adj x y → g'.Leads x y := by
    intro x y hxy
    by_cases hgone : (x, y) ∈ X
    · exact hX x y hgone hxy
    · have hstays : (x, y) ∈ g'.edgeSet := by
        rw [h.edges]
        exact Or.inl ⟨hxy, hgone⟩
      exact TransGen.single hstays
  induction huv with
  | single hxy => exact hstep _ _ hxy
  | tail _ hxy ih => exact TransGen.trans ih (hstep _ _ hxy)

end Rewires

/-! ### Rounds in turn -/

/-- The graph `g'` comes from `g` in rounds that remove the edges `X` and add the vertices `Z` and
the edges `H`.  An edge of both `X` and `H` may be there in the end or not. -/
structure Rewrites (g g' : Digraph V D) (X H : Set (String × String)) (Z : Set String) : Prop where
  /-- The vertices are the old ones and those of `Z`. -/
  vertices : g'.vertexSet = g.vertexSet ∪ Z
  /-- Every old vertex keeps its value. -/
  kept : ∀ x v, g.get? x = some v → g'.get? x = some v
  /-- What is not removed by any round is there. -/
  lower : (g.edgeSet \ X) ∪ (H \ X) ⊆ g'.edgeSet
  /-- What is there was not removed, or was added by some round. -/
  upper : g'.edgeSet ⊆ (g.edgeSet \ X) ∪ H
  /-- Every edge that no round removes keeps its properties. -/
  properties : ∀ x y, (x, y) ∈ g.edgeSet \ X → g'.properties? x y = g.properties? x y

namespace Rewrites

variable {g g' g'' : Digraph V D} {X X' H H' : Set (String × String)} {Z Z' : Set String}

theorem refl (g : Digraph V D) : Rewrites g g ∅ ∅ ∅ where
  vertices := by simp
  kept _ _ h := h
  lower := by simp
  upper := by simp
  properties _ _ _ := rfl

/-- One more round. -/
theorem andRewire (h : Rewrites g g' X H Z) (h' : Rewires g' g'' X' H' Z') :
    Rewrites g g'' (X ∪ X') (H ∪ H') (Z ∪ Z') where
  vertices := by rw [h'.vertices, h.vertices, Set.union_assoc]
  kept x v hx := h'.kept x v (h.kept x v hx)
  lower := by
    -- the last round keeps what it does not remove, and what it adds is there in any case
    rw [h'.edges]
    rintro e (⟨he, hX⟩ | ⟨he | he, hX⟩)
    · exact Or.inl ⟨h.lower (Or.inl ⟨he, fun hx => hX (Or.inl hx)⟩), fun hx => hX (Or.inr hx)⟩
    · exact Or.inl ⟨h.lower (Or.inr ⟨he, fun hx => hX (Or.inl hx)⟩), fun hx => hX (Or.inr hx)⟩
    · exact Or.inr he
  upper := by
    rw [h'.edges]
    rintro e (⟨he, hX'⟩ | he)
    · rcases h.upper he with ⟨hold, hX⟩ | hadded
      · exact Or.inl ⟨hold, fun hx => hx.elim hX hX'⟩
      · exact Or.inr (Or.inl hadded)
    · exact Or.inr (Or.inr he)
  properties x y hxy := by
    have hX : (x, y) ∈ g.edgeSet \ X := ⟨hxy.1, fun hx => hxy.2 (Or.inl hx)⟩
    have hX' : (x, y) ∈ g'.edgeSet \ X' := ⟨h.lower (Or.inl hX), fun hx => hxy.2 (Or.inr hx)⟩
    rw [h'.properties x y hX', h.properties x y hX]

/-- Only an edge that one round removes and another adds may be there in the end or not. -/
theorem mem_edgeSet_iff (h : Rewrites g g' X H Z) {e : String × String} (he : e ∉ X ∩ H) :
    e ∈ g'.edgeSet ↔ e ∈ (g.edgeSet \ X) ∪ H := by
  refine ⟨fun hmem => h.upper hmem, fun hmem => h.lower ?_⟩
  rcases hmem with hold | hadded
  · exact Or.inl hold
  · exact Or.inr ⟨hadded, fun hgone => he ⟨hgone, hadded⟩⟩

end Rewrites

end Groundwork.Digraph
