/-
Resources that are filed elsewhere.

A resource that gets another identity stays in the graph where it was filed.  A walk that goes on
from what the graph has under a text may therefore land at another text.  New resources are filed
under their own texts, so the site at the start of an expansion tells where its walks land.

Main definitions:

* `Groundwork.Store.Holds`, `Groundwork.Site.Housed` — resources of a store that have a property,
  and sites whose vertices are such resources;
* `Groundwork.Site.landing`, `Groundwork.Site.steps` — where a walk goes on, and the pairs of texts
  that it joins;
* `Groundwork.Site.Extends` — sites to which resources were added, filed under their own texts;
* `Groundwork.Site.Round` — changes of the graph on the way from one site.

Main results:

* `Groundwork.Site.Extends.landing_eq` — walks land where they would have landed before;
* `Groundwork.Site.Extends.depend`, `Groundwork.Site.Extends.release` — the changes of a walk;
* `Groundwork.Site.Extends.filed` — where resources are filed under their own texts, new ones are.
-/
import Groundwork.Proofs.Resource.Filing

set_option relaxedAutoImplicit false
set_option autoImplicit false

namespace Groundwork

open Groundwork.Digraph (neighbours proper ends neighbours_cons_cons)

variable {K : Resource → Prop}

namespace Store

/-- The handle refers to a resource of the store that has the property `K`. -/
def Holds (K : Resource → Prop) (s : Store) (h : Handle) : Prop := s.Has h ∧ K (s.get h)

theorem Grows.holds {s s' : Store} (h : s.Grows s') {a : Handle} (ha : s.Holds K a) :
    s'.Holds K a :=
  ⟨h.has a ha.1, by rw [h.get_eq a ha.1]; exact ha.2⟩

/-- New resources have the properties that they were made with. -/
theorem holds_of_mem_allocateAll {s : Store} {l : List Resource} (hl : ∀ r ∈ l, K r)
    {h : Handle} (hh : h ∈ (s.allocateAll l).1) : (s.allocateAll l).2.Holds K h := by
  have hmade : (s.allocateAll l).2.get h ∈ (s.allocateAll l).1.map (s.allocateAll l).2.get :=
    List.mem_map_of_mem hh
  rw [map_get_allocateAll] at hmade
  exact ⟨has_of_mem_allocateAll hh, hl _ hmade⟩

end Store

namespace Site

/-! ### Where a walk lands -/

/-- Every vertex is a resource of the store that has the property `K`. -/
def Housed (K : Resource → Prop) (s : Site) : Prop :=
  ∀ x h, s.graph.get? x = some h → s.store.Holds K h

theorem Filed.housed {s : Site} (hs : s.Filed) : s.Housed fun _ => True :=
  fun x h hx => ⟨(hs x h hx).1, trivial⟩

/-- The ends of a listed dependency are vertices. -/
theorem Housed.holds_of_mem_dependencies {s : Site} (hs : s.Housed K)
    {e : Digraph.Edge Handle Payload} (he : e ∈ s.dependencies) :
    s.store.Holds K e.source ∧ s.store.Holds K e.target := by
  obtain ⟨a, -, hsource, htarget, -⟩ := Digraph.mem_edges_iff.1 he
  exact ⟨hs _ _ hsource, hs _ _ htarget⟩

/-- The text of the resource that the graph has under a text. -/
def landing (s : Site) (x : String) : String := ((s.graph.get? x).map s.key).getD x

/-- The pairs of texts that a walk joins.  It goes on from what the graph has under the text that
it came to. -/
def steps (s : Site) : String → List String → Set (String × String)
  | _, [] => ∅
  | x, y :: l => {(x, y)} ∪ s.steps (s.landing y) l

theorem Filed.landing_eq {s : Site} (hs : s.Filed) (x : String) : s.landing x = x := by
  rw [landing]
  cases hx : s.graph.get? x with
  | none => rfl
  | some h => exact (hs x h hx).2

/-- Where resources are filed under their own texts, a walk joins neighbours. -/
theorem Filed.steps_eq {s : Site} (hs : s.Filed) (x : String) (l : List String) :
    s.steps x l = neighbours (x :: l) := by
  induction l generalizing x with
  | nil =>
      ext e
      simp [steps, neighbours]
  | cons y l ih => rw [steps, hs.landing_eq, ih, neighbours_cons_cons]

/-! ### Sites with more resources -/

/-- The site `u` is `s` with resources and dependencies added, and dependencies removed.  Vertices
have the property `K`, and new ones are filed under their own texts. -/
structure Extends (K : Resource → Prop) (s u : Site) : Prop where
  /-- Resources were made. -/
  grows : s.store.Grows u.store
  /-- Every vertex stays. -/
  kept : ∀ x h, s.graph.get? x = some h → u.graph.get? x = some h
  /-- Every vertex is a resource with the property. -/
  housed : u.Housed K
  /-- Every vertex was there, or is filed under its own text. -/
  fresh : ∀ x h, u.graph.get? x = some h → s.graph.get? x = some h ∨ u.key h = x

/-- On the way from `s`, the site `v` comes from `u` by the removal of the dependencies `X` and the
addition of the dependencies `H`, whose ends are filed. -/
structure Round (K : Resource → Prop) (s u v : Site) (X H : Set (String × String)) : Prop where
  /-- The graph is rewired. -/
  rewires : u.graph.Rewires v.graph X H (ends H)
  /-- Resources were made. -/
  grows : u.store.Grows v.store
  /-- The new site is still on the way from `s`. -/
  after : s.Extends K v

namespace Extends

variable {s u : Site}

theorem refl (hs : s.Housed K) : s.Extends K s where
  grows := Store.Grows.refl _
  kept _ _ h := h
  housed := hs
  fresh _ _ h := Or.inl h

/-- New resources are filed under their own texts if all others are. -/
theorem filed (h : s.Extends K u) (hs : s.Filed) : u.Filed := by
  intro x a ha
  refine ⟨(h.housed x a ha).1, ?_⟩
  rcases h.fresh x a ha with hold | hown
  · exact (h.grows.key_eq (hs x a hold).1).trans (hs x a hold).2
  · exact hown

/-- A walk lands where it would have landed before. -/
theorem landing_eq (h : s.Extends K u) (hs : s.Housed K) (x : String) :
    u.landing x = s.landing x := by
  rw [landing, landing]
  cases hold : s.graph.get? x with
  | some a =>
      rw [h.kept x a hold]
      exact h.grows.key_eq (hs x a hold).1
  | none =>
      cases hnew : u.graph.get? x with
      | none => rfl
      | some a =>
          have hown := (h.fresh x a hnew).resolve_left (by rw [hold]; exact nofun)
          exact hown

/-- A walk goes on from a resource with the property, whose text is where the walk lands. -/
theorem next (h : s.Extends K u) (hs : s.Housed K) {b : Handle} (hb : u.store.Holds K b) :
    u.store.Holds K ((u.find? (u.store.ident b)).getD b) ∧
      u.key ((u.find? (u.store.ident b)).getD b) = s.landing (u.key b) := by
  rw [← h.landing_eq hs, landing]
  change u.store.Holds K ((u.graph.get? (u.key b)).getD b) ∧
    u.key ((u.graph.get? (u.key b)).getD b) = _
  cases hget : u.graph.get? (u.key b) with
  | none => exact ⟨hb, rfl⟩
  | some a => exact ⟨h.housed _ _ hget, rfl⟩

/-! ### The changes of a walk -/

theorem grow (h : s.Extends K u) {store : Store} (hstore : u.store.Grows store) :
    s.Extends K { u with store } where
  grows := h.grows.trans hstore
  kept := h.kept
  housed x a ha := hstore.holds (h.housed x a ha)
  fresh x a ha := (h.fresh x a ha).imp_right fun hown =>
    (hstore.key_eq (h.housed x a ha).1).trans hown

theorem insert (h : s.Extends K u) {a : Handle} (ha : u.store.Holds K a) :
    s.Extends K (u.insert a).1 := by
  rw [Site.insert]
  split
  case h_1 => exact h
  case h_2 hnone =>
      have hget (x : String) (b : Handle)
          (hb : (u.graph.insertVertex (u.key a) a).get? x = some b) :
          (b = a ∧ u.key a = x) ∨ u.graph.get? x = some b := by
        rw [Digraph.get?_insertVertex] at hb
        split at hb
        case isTrue heq =>
            cases hb
            exact Or.inl ⟨rfl, heq⟩
        case isFalse => exact Or.inr hb
      refine ⟨h.grows, fun x b hb => ?_, fun x b hb => ?_, fun x b hb => ?_⟩
      · exact (Digraph.Rewires.insertVertex hnone a).kept x b (h.kept x b hb)
      · rcases hget x b hb with ⟨rfl, -⟩ | hold
        · exact ha
        · exact h.housed x b hold
      · rcases hget x b hb with ⟨rfl, hown⟩ | hold
        · exact Or.inr hown
        · exact h.fresh x b hold

/-- Changes that leave the vertices alone. -/
theorem of_get?_eq (h : s.Extends K u) {v : Site} (hstore : v.store = u.store)
    (hget : ∀ x, v.graph.get? x = u.graph.get? x) : s.Extends K v where
  grows := hstore ▸ h.grows
  kept x a ha := (hget x).trans (h.kept x a ha)
  housed x a ha := by
    rw [hstore]
    exact h.housed x a ((hget x).symm.trans ha)
  fresh x a ha := by
    rw [key, hstore]
    exact h.fresh x a ((hget x).symm.trans ha)

/-- A dependency that is not refused. -/
theorem depend (h : s.Extends K u) {a b : Handle} (ha : u.store.Holds K a)
    (hb : u.store.Holds K b) {v : Site} (hdepend : u.depend a b {} = (v, .ok ())) :
    Round K s u v ∅ (proper {(u.key a, u.key b)}) := by
  have hstore : v.store = u.store := by
    have hstore' := store_depend u a b {}
    rwa [hdepend] at hstore'
  refine ⟨rewires_depend hdepend, hstore ▸ Store.Grows.refl _, ?_⟩
  rw [Site.depend] at hdepend
  split at hdepend
  case isTrue =>
      cases hdepend
      exact h
  case isFalse =>
      have hends := (h.insert ha).insert (a := b) (by rwa [store_insert])
      rw [wire] at hdepend
      split at hdepend
      case isTrue => cases hdepend
      case isFalse =>
          cases hdepend
          exact hends.of_get?_eq rfl fun x => Digraph.get?_connect _ _ _ x {}

/-- A dependency that can be removed. -/
theorem release (h : s.Extends K u) {i j : Ident} {v : Site}
    (hrelease : u.release i j = (v, .ok ())) : Round K s u v {(i.text, j.text)} ∅ := by
  have hrewires := rewires_release hrelease
  rw [Site.release] at hrelease
  split at hrelease
  case h_1 hok =>
      cases hrelease
      refine ⟨by rw [Digraph.ends_empty]; exact hrewires, Store.Grows.refl _, ?_⟩
      exact h.of_get?_eq rfl fun x => Digraph.get?_of_disconnect hok x
  case h_2 => cases hrelease

end Extends

namespace Round

variable {s u v w : Site} {X H H' : Set (String × String)}

theorem refl (h : s.Extends K u) : Round K s u u ∅ ∅ where
  rewires := by
    rw [Digraph.ends_empty]
    exact Digraph.Rewires.refl _
  grows := Store.Grows.refl _
  after := h

/-- A round may start with new resources that stay out of the graph. -/
theorem of_graph_eq (h : Round K s w v X H) (hgraph : w.graph = u.graph)
    (hstore : u.store.Grows w.store) : Round K s u v X H where
  rewires := hgraph ▸ h.rewires
  grows := hstore.trans h.grows
  after := h.after

/-- The same round, described in other words. -/
theorem congr {X' H' : Set (String × String)} (h : Round K s u v X H) (hX : X = X')
    (hH : H = H') : Round K s u v X' H' :=
  hX ▸ hH ▸ h

/-- A round may go on with dependencies to add. -/
theorem andAdd (h : Round K s u v X H) (h' : Round K s v w ∅ H') : Round K s u w X (H ∪ H') where
  rewires := by
    rw [Digraph.ends_union]
    exact h.rewires.andAdd h'.rewires
  grows := h.grows.trans h'.grows
  after := h'.after

end Round

end Site

end Groundwork
