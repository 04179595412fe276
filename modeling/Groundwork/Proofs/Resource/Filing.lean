/-
Resources that stay under their own text.

A graph files a resource under the text that its identity has when it comes in.  As long as no
resource gets another identity, each one is found under its own text, and the operations of a site
rewrite its graph in a way that the texts of their arguments tell.

Main definitions:

* `Groundwork.Store.Has`, `Groundwork.Store.Grows` — resources of a store, and stores to which
  resources were added;
* `Groundwork.Site.Filed` — every resource is filed under its own text.

Main results:

* `Groundwork.Store.grows_allocateAll`, `Groundwork.Store.map_get_allocateAll` — new resources;
* `Groundwork.Site.rewires_depend`, `Groundwork.Site.rewires_release` — the graph after a
  dependency was added or removed;
* `Groundwork.Site.Filed.depend` — resources stay under their own texts.
-/
import Groundwork.Proofs.Digraph.Rewriting
import Groundwork.Proofs.Resource.Editing

set_option relaxedAutoImplicit false
set_option autoImplicit false

namespace Groundwork

/-! ### Stores that grow -/

namespace Store

/-- The handle refers to a resource of the store. -/
def Has (s : Store) (h : Handle) : Prop := h.number < s.resources.size

instance (s : Store) (h : Handle) : Decidable (s.Has h) :=
  inferInstanceAs (Decidable (h.number < s.resources.size))

/-- The store `s'` is `s` with resources added. -/
structure Grows (s s' : Store) : Prop where
  /-- Every resource is still there. -/
  has : ∀ h, s.Has h → s'.Has h
  /-- Every resource is as it was. -/
  get_eq : ∀ h, s.Has h → s'.get h = s.get h

theorem Grows.refl (s : Store) : s.Grows s := ⟨fun _ h => h, fun _ _ => rfl⟩

theorem Grows.trans {s s' s'' : Store} (h : s.Grows s') (h' : s'.Grows s'') : s.Grows s'' where
  has a ha := h'.has a (h.has a ha)
  get_eq a ha := (h'.get_eq a (h.has a ha)).trans (h.get_eq a ha)

theorem Grows.key_eq {s s' : Store} (h : s.Grows s') {a : Handle} (ha : s.Has a) :
    s'.key a = s.key a := by
  rw [key, h.get_eq a ha, key]

theorem Grows.ident_eq {s s' : Store} (h : s.Grows s') {a : Handle} (ha : s.Has a) :
    s'.ident a = s.ident a := by
  rw [ident, h.get_eq a ha, ident]

theorem grows_allocate (s : Store) (r : Resource) : s.Grows (s.allocate r).2 where
  has h hh := by
    rw [Has, allocate, Array.size_push]
    exact Nat.lt_succ_of_lt hh
  get_eq h hh := by
    rw [get, allocate, Array.getElem?_push_lt hh, get, Array.getElem?_eq_getElem hh]

theorem has_allocate (s : Store) (r : Resource) : (s.allocate r).2.Has (s.allocate r).1 := by
  simp [Has, allocate]

theorem get_allocate (s : Store) (r : Resource) : (s.allocate r).2.get (s.allocate r).1 = r := by
  simp [get, allocate]

theorem grows_allocateAll (s : Store) (l : List Resource) : s.Grows (s.allocateAll l).2 := by
  induction l generalizing s with
  | nil => exact Grows.refl s
  | cons r l ih => exact (grows_allocate s r).trans (ih _)

theorem has_of_mem_allocateAll {s : Store} {l : List Resource} {h : Handle}
    (hh : h ∈ (s.allocateAll l).1) : (s.allocateAll l).2.Has h := by
  induction l generalizing s with
  | nil => exact absurd hh List.not_mem_nil
  | cons r l ih =>
      rcases List.mem_cons.1 hh with rfl | hh
      · exact (grows_allocateAll (s.allocate r).2 l).has _ (has_allocate s r)
      · exact ih hh

/-- The new handles refer to the resources that they were made for. -/
theorem map_get_allocateAll (s : Store) (l : List Resource) :
    (s.allocateAll l).1.map (s.allocateAll l).2.get = l := by
  induction l generalizing s with
  | nil => rfl
  | cons r l ih =>
      have hfirst : (s.allocateAll (r :: l)).2.get (s.allocate r).1 = r :=
        ((grows_allocateAll (s.allocate r).2 l).get_eq _ (has_allocate s r)).trans
          (get_allocate s r)
      exact congrArg₂ List.cons hfirst (ih (s.allocate r).2)

theorem map_key_allocateAll (s : Store) (l : List Resource) :
    (s.allocateAll l).1.map (s.allocateAll l).2.key = l.map Resource.key := by
  conv_rhs => rw [← map_get_allocateAll s l, List.map_map]
  rfl

end Store

namespace Site

/-! ### Filed resources -/

/-- Every vertex is a resource of the store and filed under its own text. -/
def Filed (s : Site) : Prop :=
  ∀ x h, s.graph.get? x = some h → s.store.Has h ∧ s.key h = x

variable {s : Site}

theorem filed_of_graph_eq_empty (h : s.graph = {}) : s.Filed := by
  intro x a ha
  rw [h] at ha
  cases ha

/-- The ends of a listed dependency are filed. -/
theorem Filed.get?_of_mem_dependencies (hs : s.Filed) {e : Digraph.Edge Handle Payload}
    (he : e ∈ s.dependencies) :
    s.graph.get? (s.key e.source) = some e.source ∧
      s.graph.get? (s.key e.target) = some e.target := by
  obtain ⟨a, -, hsource, htarget, -⟩ := Digraph.mem_edges_iff.1 he
  rw [(hs _ _ hsource).2, (hs _ _ htarget).2]
  exact ⟨hsource, htarget⟩

/-- A listed dependency is an edge between the texts of its ends. -/
theorem Filed.adj_of_mem_dependencies (hs : s.Filed) {e : Digraph.Edge Handle Payload}
    (he : e ∈ s.dependencies) : s.graph.Adj (s.key e.source) (s.key e.target) := by
  obtain ⟨a, ha, hsource, htarget, -⟩ := Digraph.mem_edges_iff.1 he
  exact ⟨a, ha, (hs _ _ hsource).2.symm, (hs _ _ htarget).2.symm⟩

/-- What a listed dependency carries is found between the texts of its ends. -/
theorem Filed.properties?_of_mem_dependencies (hs : s.Filed) (hg : s.graph.WellFormed)
    {e : Digraph.Edge Handle Payload} (he : e ∈ s.dependencies) :
    s.graph.properties? (s.key e.source) (s.key e.target) = some e.properties := by
  obtain ⟨x, y, hx, hy, hp⟩ := hg.mem_edges_iff_properties?.1 he
  rw [(hs _ _ hx).2, (hs _ _ hy).2, hp]

/-! ### Operations on filed resources -/

@[simp] theorem store_insert (s : Site) (h : Handle) : (s.insert h).1.store = s.store := by
  rw [insert]
  split <;> rfl

@[simp] theorem store_depend (s : Site) (a b : Handle) (p : Properties Payload) :
    (s.depend a b p).1.store = s.store := by
  rw [depend]
  split
  · rfl
  · rw [wire]
    split <;> simp

/-- Filing a resource moves no dependency. -/
theorem adj_insert (s : Site) (h : Handle) (x y : String) :
    (s.insert h).1.graph.Adj x y ↔ s.graph.Adj x y := by
  rw [insert]
  split
  · exact Iff.rfl
  · exact Digraph.adj_insertVertex _ _ _ x y

theorem contains_of_insert {s : Site} {x : String} (hx : s.graph.contains x = true) (h : Handle) :
    (s.insert h).1.graph.contains x = true := by
  rw [insert]
  split
  · exact hx
  · exact (Digraph.contains_insertVertex _ _ x _).2 (Or.inr hx)

/-- Adding a dependency removes none, whether it is refused or not. -/
theorem adj_of_depend {s : Site} {x y : String} (hxy : s.graph.Adj x y) (a b : Handle)
    (p : Properties Payload) : (s.depend a b p).1.graph.Adj x y := by
  have hends : ((s.insert a).1.insert b).1.graph.Adj x y :=
    (adj_insert _ b x y).2 ((adj_insert s a x y).2 hxy)
  rw [depend]
  split
  · exact hxy
  · rw [wire]
    split
    · exact hends
    · exact (Digraph.adj_connect _ _ _ p x y).2 (Or.inl hends)

/-- Adding a dependency removes no resource, whether it is refused or not. -/
theorem contains_of_depend {s : Site} {x : String} (hx : s.graph.contains x = true) (a b : Handle)
    (p : Properties Payload) : (s.depend a b p).1.graph.contains x = true := by
  have hends : ((s.insert a).1.insert b).1.graph.contains x = true :=
    contains_of_insert (contains_of_insert hx a) b
  rw [depend]
  split
  · exact hx
  · rw [wire]
    split
    · exact hends
    · exact (Digraph.contains_connect _ _ _ _ p).trans hends

theorem insert_of_contains {h : Handle} (hx : s.graph.contains (s.key h) = true) :
    (s.insert h).1 = s := by
  obtain ⟨stored, hstored⟩ := Digraph.contains_iff.1 hx
  rw [insert, hstored]

/-- A dependency that is there already changes nothing, whether it is refused or not. -/
theorem graph_depend_of_adj {a b : Handle} (ha : s.graph.contains (s.key a) = true)
    (hb : s.graph.contains (s.key b) = true) (hab : s.graph.Adj (s.key a) (s.key b)) :
    (s.depend a b {}).1.graph = s.graph := by
  rw [depend]
  split
  · rfl
  · rw [insert_of_contains ha, insert_of_contains hb, wire]
    split
    · rfl
    · exact Digraph.connect_empty_of_adj ha hb hab

/-- Filing a resource adds its text to the vertices. -/
theorem rewires_insert (s : Site) (h : Handle) :
    s.graph.Rewires (s.insert h).1.graph ∅ ∅ {s.key h} := by
  rw [insert]
  split
  case h_1 stored hstored =>
      refine (Digraph.Rewires.refl s.graph).congr rfl rfl ?_
      have hmem : s.key h ∈ s.graph.vertexSet := Digraph.contains_iff.2 ⟨stored, hstored⟩
      rw [Set.union_empty, Set.union_eq_self_of_subset_right (Set.singleton_subset_iff.2 hmem)]
  case h_2 hnone => exact Digraph.Rewires.insertVertex hnone h

/-- A dependency that is not refused is there afterwards, unless it would lead from a text to
itself, and its ends are filed. -/
theorem rewires_depend {a b : Handle} {t : Site} (h : s.depend a b {} = (t, .ok ())) :
    s.graph.Rewires t.graph ∅ (Digraph.proper {(s.key a, s.key b)})
      (Digraph.ends (Digraph.proper {(s.key a, s.key b)})) := by
  rw [depend] at h
  split at h
  case isTrue heq =>
      cases h
      rw [Digraph.proper_singleton_of_eq heq, Digraph.ends_empty]
      exact Digraph.Rewires.refl s.graph
  case isFalse hne =>
      have hfiled := (rewires_insert s a).andAdd (rewires_insert (s.insert a).1 b)
      rw [wire] at h
      split at h
      case isTrue => cases h
      case isFalse =>
          cases h
          have hkey : (s.insert a).1.key b = s.key b := by rw [key, store_insert, key]
          have hends (x : String) (hx : x = s.key a ∨ x = s.key b) :
              ((s.insert a).1.insert b).1.graph.contains x = true := by
            have hmem : x ∈ ((s.insert a).1.insert b).1.graph.vertexSet := by
              rw [hfiled.vertices, hkey]
              exact Or.inr hx
            exact hmem
          have hconnect := Digraph.Rewires.connect (hends _ (Or.inl rfl)) (hends _ (Or.inr rfl))
          rw [Digraph.proper_singleton_of_ne hne, Digraph.ends_singleton]
          refine (hfiled.andAdd hconnect).congr rfl ?_ ?_
          · rw [Set.empty_union, Set.empty_union]
          · rw [hkey, Set.union_empty]

/-- A dependency that can be removed is gone afterwards. -/
theorem rewires_release {i j : Ident} {t : Site} (h : s.release i j = (t, .ok ())) :
    s.graph.Rewires t.graph {(i.text, j.text)} ∅ ∅ := by
  rw [release] at h
  split at h
  case h_1 heq =>
      cases h
      exact Digraph.Rewires.disconnect heq
  case h_2 => cases h

/-- A dependency that is there can be removed. -/
theorem release_of_adj {i j : Ident} (h : s.graph.Adj i.text j.text) :
    s.release i j = ((s.release i j).1, .ok ()) := by
  obtain ⟨p, g, hok⟩ := Digraph.disconnect_of_adj h
  rw [release, hok]

/-- A dependency that is not there cannot be removed. -/
theorem release_of_not_adj {i j : Ident} (h : ¬ s.graph.Adj i.text j.text) :
    s.release i j = (s, .error (.edgeNotFound i.text j.text)) := by
  rw [release, Digraph.disconnect_of_not_adj h]

/-- The dependencies after one was removed, or was not there. -/
theorem adj_release (s : Site) (i j : Ident) (x y : String) :
    (s.release i j).1.graph.Adj x y ↔ s.graph.Adj x y ∧ ¬ (x = i.text ∧ y = j.text) := by
  by_cases hadj : s.graph.Adj i.text j.text
  · obtain ⟨p, g, hok⟩ := Digraph.disconnect_of_adj hadj
    rw [release, hok]
    exact Digraph.adj_of_disconnect hok x y
  · rw [release_of_not_adj hadj]
    refine (and_iff_left_of_imp ?_).symm
    rintro hxy ⟨rfl, rfl⟩
    exact hadj hxy

theorem eq_of_release_eq_error {i j : Ident} {t : Site} {f : Fault}
    (h : s.release i j = (t, .error f)) : f = .edgeNotFound i.text j.text := by
  by_cases hadj : s.graph.Adj i.text j.text
  · obtain ⟨p, g, hok⟩ := Digraph.disconnect_of_adj hadj
    rw [release, hok] at h
    cases h
  · rw [release, Digraph.disconnect_of_not_adj hadj] at h
    cases h
    rfl

namespace Filed

theorem insert {h : Handle} (hs : s.Filed) (hh : s.store.Has h) : (s.insert h).1.Filed := by
  rw [Site.insert]
  split
  case h_1 => exact hs
  case h_2 hnone =>
      intro x h' hx
      rw [graph_commit, Digraph.get?_insertVertex] at hx
      split at hx
      case isTrue heq =>
          cases hx
          exact ⟨hh, heq⟩
      case isFalse => exact hs x h' hx

theorem depend {a b : Handle} (hs : s.Filed) (ha : s.store.Has a) (hb : s.store.Has b)
    (p : Properties Payload) : (s.depend a b p).1.Filed := by
  rw [Site.depend]
  split
  case isTrue => exact hs
  case isFalse =>
      have hends := (hs.insert ha).insert (h := b) (by rwa [store_insert])
      rw [wire]
      split
      · exact hends
      · intro x h hx
        rw [graph_commit, Digraph.get?_connect] at hx
        exact hends x h hx

end Filed

end Site

end Groundwork
