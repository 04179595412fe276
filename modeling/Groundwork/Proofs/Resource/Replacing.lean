/-
One resource in the place of another.

The dependencies of the old resource are copied to the new one, and then the old one goes.  If the
text of the new resource is not taken, the old one is renamed.  If it is taken by another resource,
that one takes over, unless a copy is refused; then the copies before it stay.  A resource with the
text of the old one is not put in its place: the old one goes, and nothing is left of it.

Main definitions:

* `Groundwork.Site.Grown` — nothing was lost, and nothing changed away from one resource.

Main results:

* `Groundwork.Site.Reachable.replace_renames` — **a resource with a new text takes the place of the
  old one as if that were renamed**;
* `Groundwork.Site.Reachable.replace_takesOver_iff` — **a resource that is there takes over, unless
  it has the text of the old one**;
* `Groundwork.Site.Reachable.replace_refused` — **what a refused replacement leaves behind**.
-/
import Groundwork.Proofs.Resource.Laying

set_option relaxedAutoImplicit false
set_option autoImplicit false

namespace Groundwork.Site

open Groundwork.Digraph (Arc Edge Overlaid loopless)

variable {s t : Site} {a b new : Handle} {old : Ident} {f : Fault} {m : String}

/-! ### Sites that grow at one resource -/

/-- The site `t` has all that `s` has, and away from the vertex `m` no dependency has changed. -/
structure Grown (s t : Site) (m : String) : Prop where
  /-- No resource changes. -/
  store_eq : t.store = s.store
  /-- Every vertex is still there, with its resource. -/
  get?_of_get? : ∀ x h, s.graph.get? x = some h → t.graph.get? x = some h
  /-- Every dependency is still there. -/
  adj_of_adj : ∀ x y, s.graph.Adj x y → t.graph.Adj x y
  /-- A dependency of other resources is there exactly if it was, and carries what it did. -/
  properties?_eq : ∀ x y, x ≠ m → y ≠ m → t.graph.properties? x y = s.graph.properties? x y

namespace Grown

theorem refl (s : Site) (m : String) : s.Grown s m :=
  ⟨rfl, fun _ _ hx => hx, fun _ _ hxy => hxy, fun _ _ _ _ => rfl⟩

theorem key_eq (h : s.Grown t m) (k : Handle) : t.key k = s.key k := by
  rw [key, h.store_eq, key]

theorem contains_of_contains (h : s.Grown t m) {x : String} (hx : s.graph.contains x = true) :
    t.graph.contains x = true := by
  obtain ⟨k, hk⟩ := Digraph.contains_iff.1 hx
  exact Digraph.contains_iff.2 ⟨k, h.get?_of_get? x k hk⟩

theorem insert (h : s.Grown t m) (k : Handle) : s.Grown (t.insert k).1 m where
  store_eq := (store_insert t k).trans h.store_eq
  get?_of_get? x a ha := by rw [get?_insert, h.get?_of_get? x a ha, Option.some_or]
  adj_of_adj x y hxy := (adj_insert t k x y).2 (h.adj_of_adj x y hxy)
  properties?_eq x y hx hy := by
    rw [Digraph.properties?, Digraph.arc?, arcs_insert]
    exact h.properties?_eq x y hx hy

theorem wire (h : s.Grown t m) {source target : String} (hm : source = m ∨ target = m)
    (p : Properties Payload) : s.Grown (t.wire source target p).1 m := by
  rw [Site.wire]
  split
  case isTrue => exact h
  case isFalse =>
      refine ⟨h.store_eq, fun x a ha => ?_, fun x y hxy => ?_, fun x y hx hy => ?_⟩
      · rw [graph_commit, Digraph.get?_connect]
        exact h.get?_of_get? x a ha
      · exact (Digraph.adj_connect _ _ _ p x y).2 (Or.inl (h.adj_of_adj x y hxy))
      · rw [graph_commit, ← h.properties?_eq x y hx hy]
        by_cases hends : t.graph.contains source = true ∧ t.graph.contains target = true
        · rw [Digraph.properties?_connect p hends.1 hends.2, if_neg]
          rintro ⟨rfl, rfl⟩
          exact hm.elim hx hy
        · rw [Digraph.connect_of_missing p hends]

theorem depend (h : s.Grown t m) (hm : s.key a = m ∨ s.key b = m) (p : Properties Payload) :
    s.Grown (t.depend a b p).1 m := by
  rw [← h.key_eq, ← h.key_eq] at hm
  rw [Site.depend]
  split
  case isTrue => exact h
  case isFalse => exact ((h.insert a).insert b).wire hm p

theorem handSide (h : s.Grown t (s.key new)) (present : Handle) (d : Direction) :
    s.Grown (t.handSide present new d).1 (s.key new) := by
  refine Stable.attempt (P := fun u => s.Grown u (s.key new)) (fun change hchange u hu => ?_) h
  obtain ⟨e, -, rfl⟩ := List.mem_map.1 hchange
  cases d with
  | outgoing => exact hu.depend (Or.inl rfl) e.properties
  | incoming => exact hu.depend (Or.inr rfl) e.properties

theorem handOver (h : s.Grown t (s.key new)) (present : Handle) :
    s.Grown (t.handOver present new).1 (s.key new) := by
  have hleaving := h.handSide present .outgoing
  rw [Site.handOver]
  split
  case h_1 u f heq =>
      rw [heq] at hleaving
      exact hleaving
  case h_2 u heq =>
      rw [heq] at hleaving
      exact hleaving.handSide present .incoming

end Grown

/-! ### What is reported -/

theorem exists_of_depend_error {p : Properties Payload} (h : (s.depend a b p).2 = .error f) :
    ∃ x y, f = .wouldCycle x y := by
  rw [depend] at h
  split at h
  case isTrue => cases h
  case isFalse =>
      rw [wire] at h
      split at h
      case isTrue =>
          cases h
          exact ⟨_, _, rfl⟩
      case isFalse => cases h

/-- A list of changes fails as one of them does. -/
theorem exists_of_attempt_error {l : List (Site → Site × Except Fault Unit)}
    (h : (s.attempt l).2 = .error f) : ∃ change ∈ l, ∃ u, (change u).2 = .error f := by
  induction l generalizing s with
  | nil => cases h
  | cons change l ih =>
      rw [attempt] at h
      split at h
      case h_1 =>
          obtain ⟨c, hc, u, hu⟩ := ih h
          exact ⟨c, List.mem_cons_of_mem change hc, u, hu⟩
      case h_2 heq => exact ⟨change, List.mem_cons_self, s, (congrArg Prod.snd heq).trans h⟩

theorem exists_of_handSide_error {present : Handle} {d : Direction}
    (h : (s.handSide present new d).2 = .error f) : ∃ x y, f = .wouldCycle x y := by
  obtain ⟨change, hchange, u, hu⟩ := exists_of_attempt_error h
  obtain ⟨e, -, rfl⟩ := List.mem_map.1 hchange
  exact exists_of_depend_error hu

theorem exists_of_handOver_error {present : Handle} (h : (s.handOver present new).2 = .error f) :
    ∃ x y, f = .wouldCycle x y := by
  rw [handOver] at h
  split at h
  case h_1 heq => exact exists_of_handSide_error ((congrArg Prod.snd heq).trans h)
  case h_2 => exact exists_of_handSide_error h

/-- A replacement fails while edges are copied, or not at all. -/
theorem replace_grown (hold : s.graph.contains old.text = true)
    (hrefused : (s.replace old new).2 = .error f) :
    (∃ x y, f = .wouldCycle x y) ∧ s.Grown (s.replace old new).1 (s.key (s.insert new).2) := by
  obtain ⟨present, hpresent⟩ := Digraph.contains_iff.1 hold
  have hinsert := (Grown.refl s (s.key (s.insert new).2)).insert new
  have hgrown := hinsert.handOver present
  rw [replace_of_find? hpresent] at hrefused ⊢
  split at hrefused
  case h_1 t g heq =>
      rw [heq] at hgrown
      cases hrefused
      exact ⟨exists_of_handOver_error (congrArg Prod.snd heq), hgrown⟩
  case h_2 t heq =>
      -- the old resource is still there, so it can be removed
      rw [heq] at hgrown
      rw [erase, if_pos (hgrown.contains_of_contains hold)] at hrefused
      cases hrefused

namespace Reachable

/-- Five resources, each of another provider, the last of which is not filed.  The first depends on
the second and the fourth, and the second on the third. -/
def fork : Site :=
  let part (provider : String) : Resource := { ident := { provider, scope := "zone" } }
  let start : Site := { store := ⟨#[part "x", part "y", part "z", part "w", part "v"]⟩ }
  (((start.depend ⟨0⟩ ⟨1⟩ {}).1.depend ⟨1⟩ ⟨2⟩ {}).1.depend ⟨0⟩ ⟨3⟩ {}).1

theorem reachable_fork : fork.Reachable :=
  ⟨_, rfl, (((Reaches.refl _).depend ⟨0⟩ ⟨1⟩ {}).depend ⟨1⟩ ⟨2⟩ {}).depend ⟨0⟩ ⟨3⟩ {}⟩

theorem filed_fork : fork.Filed := by
  refine (((filed_of_graph_eq_empty rfl).depend ?_ ?_ {}).depend ?_ ?_ {}).depend ?_ ?_ {}
  all_goals decide +kernel

/-- The same resources after the third has got the identity of the first. -/
def namesake : Site :=
  { fork with store := fork.store.modify ⟨2⟩ fun r => { r with ident := fork.store.ident ⟨0⟩ } }

theorem reachable_namesake : namesake.Reachable := by
  obtain ⟨start, hempty, hreach⟩ := reachable_fork
  exact ⟨start, hempty, hreach.mutate _⟩

/-! ### A text that is not taken -/

/-- **A resource with a new text takes the place of the old one as if that were renamed.**  The
replacement is never refused; the other resources stay, and every dependency is found between the
ends that have moved, with its attributes and its payload. -/
theorem replace_renames (hs : s.Reachable) (hplaced : s.Placed old new)
    (hold : s.graph.contains old.text = true) (hnew : s.graph.contains (s.key new) = false) :
    (s.replace old new).2 = .ok () ∧ (s.replace old new).1.store = s.store ∧
      (s.replace old new).1.graph.outline = s.graph.outline.rename old.text (s.key new) new := by
  obtain ⟨g, hover, hgraph, hok⟩ :=
    replace_of_spare hs.wellFormed hs.acyclic hplaced hold (Or.inr hnew)
  have hinsert : (s.insert new).1.graph = s.graph.insertVertex (s.key new) new := by
    rw [Digraph.contains_eq_isSome_get?, Option.isSome_eq_false_iff,
      Option.isNone_iff_eq_none] at hnew
    rw [insert, hnew]
    rfl
  rw [hinsert] at hover
  refine ⟨hok, store_replace s old new, ?_⟩
  rw [hgraph]
  exact hover.outline_rename hs.wellFormed hs.acyclic hold hnew

/-- The second of the resources gives its place to the one that is not filed. -/
theorem replace_renames_fork :
    fork.Reachable ∧ fork.Placed (fork.store.ident ⟨1⟩) ⟨4⟩ ∧
      (fork.replace (fork.store.ident ⟨1⟩) ⟨4⟩).2 = .ok () ∧
      (fork.replace (fork.store.ident ⟨1⟩) ⟨4⟩).1.graph.outline =
        fork.graph.outline.rename (fork.store.ident ⟨1⟩).text (fork.key ⟨4⟩) ⟨4⟩ := by
  have hplaced := filed_fork.placed (fork.store.ident ⟨1⟩) ⟨4⟩
  obtain ⟨hok, -, houtline⟩ :=
    replace_renames reachable_fork hplaced (by decide +kernel) (by decide +kernel)
  exact ⟨reachable_fork, hplaced, hok, houtline⟩

/-! ### A text that is taken -/

/-- **A resource that is there takes over, unless it has the text of the old one.**  In that case
the replacement succeeds as well, but the old one is removed with all its dependencies. -/
theorem replace_takesOver_iff (hs : s.Reachable) (hplaced : s.Placed old new)
    (hold : s.graph.contains old.text = true) (hnew : s.graph.contains (s.key new) = true) :
    ((s.replace old new).2 = .ok () →
        (s.graph.TakesOver (s.replace old new).1.graph old.text (s.key new) ↔
          s.key new ≠ old.text)) ∧
      (s.key new = old.text → (s.replace old new).2 = .ok () ∧
        (s.replace old new).1.graph.outline = s.graph.outline.eraseVertex old.text) := by
  have hinsert : (s.insert new).1 = s := insert_of_contains hnew
  have hcopies := replace_cases hs.wellFormed hs.acyclic hplaced hold
  have hspare := replace_of_spare hs.wellFormed hs.acyclic hplaced hold
  rw [hinsert] at hcopies hspare
  have hsame (heq : s.key new = old.text) : (s.replace old new).2 = .ok () ∧
      (s.replace old new).1.graph.outline = s.graph.outline.eraseVertex old.text := by
    obtain ⟨g, hover, hgraph, hok⟩ := hspare (Or.inl heq)
    rw [heq] at hover
    refine ⟨hok, ?_⟩
    rw [hgraph]
    exact hover.outline_eraseVertex
  refine ⟨fun hok => ⟨fun htakes heq => ?_, fun hne => ?_⟩, hsame⟩
  · -- the text of the new resource goes with the old one
    have hgone := congrFun (congrArg Digraph.Outline.value (hsame heq).2) (s.key new)
    have hthere := htakes.contains
    rw [Digraph.contains_eq_isSome_get?] at hthere
    change (s.replace old new).1.graph.get? (s.key new) =
      if old.text = s.key new then none else s.graph.get? (s.key new) at hgone
    rw [hgone, if_pos heq.symm] at hthere
    cases hthere
  · rcases hcopies with ⟨g, hover, hgraph, -⟩ | ⟨done, a, rest, -, -, -, herror⟩
    · rw [hgraph]
      exact hover.takesOver hnew hne.symm
    · rw [herror] at hok
      cases hok

/-- The second resource gives its place to the fourth, which depends on the third from then on; put
in its own place, it is gone. -/
theorem replace_takesOver_iff_fork :
    fork.Reachable ∧
      fork.graph.TakesOver (fork.replace (fork.store.ident ⟨1⟩) ⟨3⟩).1.graph
        (fork.store.ident ⟨1⟩).text (fork.key ⟨3⟩) ∧
      (fork.replace (fork.store.ident ⟨1⟩) ⟨1⟩).1.graph.outline =
        fork.graph.outline.eraseVertex (fork.store.ident ⟨1⟩).text := by
  have hold : fork.graph.contains (fork.store.ident ⟨1⟩).text = true := by decide +kernel
  have hplaced := filed_fork.placed (fork.store.ident ⟨1⟩)
  obtain ⟨hother, -⟩ := replace_takesOver_iff reachable_fork (hplaced ⟨3⟩) hold (by decide +kernel)
  obtain ⟨-, hsame⟩ := replace_takesOver_iff reachable_fork (hplaced ⟨1⟩) hold hold
  exact ⟨reachable_fork, (hother rfl).2 (by decide +kernel), (hsame rfl).2⟩

/-- A resource that is put in its own place does not take over, and neither does one that is put in
the place of a resource whose identity has changed since it was filed. -/
theorem not_forall_takesOver :
    (¬ ∀ (s : Site) (old : Ident) (new : Handle), s.Reachable →
        s.graph.contains old.text = true → s.graph.contains (s.key new) = true →
        (s.replace old new).2 = .ok () →
        s.graph.TakesOver (s.replace old new).1.graph old.text (s.key new)) ∧
      ¬ ∀ (s : Site) (old : Ident) (new : Handle), s.Reachable →
        s.graph.contains old.text = true → s.graph.contains (s.key new) = true →
        s.key new ≠ old.text → (s.replace old new).2 = .ok () →
        s.graph.TakesOver (s.replace old new).1.graph old.text (s.key new) := by
  constructor
  · intro h
    have hold : fork.graph.contains (fork.store.ident ⟨1⟩).text = true := by decide +kernel
    have hthere := (h fork (fork.store.ident ⟨1⟩) ⟨1⟩ reachable_fork hold hold rfl).contains
    revert hthere
    decide +kernel
  · intro h
    have htakes := h namesake (fork.store.ident ⟨2⟩) ⟨3⟩ reachable_namesake (by decide +kernel)
      (by decide +kernel) (by decide +kernel) rfl
    -- the second resource depended on the third, and does not depend on the fourth now
    have hentering := htakes.entering (fork.key ⟨1⟩) (by decide +kernel) (by decide +kernel)
      (Digraph.hasEdge_iff.1 (by decide +kernel))
    rw [← Digraph.hasEdge_iff] at hentering
    revert hentering
    decide +kernel

/-! ### Copies that are refused -/

/-- **What a refused replacement leaves behind.**  If the old resource is not there, nothing
changes.  Otherwise a copy would close a cycle; then all resources and dependencies are still
there, the old one included, and nothing has changed away from the new one.  If the resources are
in their places, the new one was there before, no vertex is new, and the copies up to the one that
was refused have been made. -/
theorem replace_refused (hs : s.Reachable) (hrefused : (s.replace old new).2 = .error f) :
    (s.graph.contains old.text = false ∧ f = .vertexNotFound old.text ∧
        (s.replace old new).1 = s) ∨
      s.graph.contains old.text = true ∧ (∃ x y, f = .wouldCycle x y) ∧
        s.Grown (s.replace old new).1 (s.key (s.insert new).2) ∧
        (s.Placed old new →
          s.graph.contains (s.key new) = true ∧ s.key new ≠ old.text ∧
          ∃ done a rest, s.graph.incident old.text = done ++ a :: rest ∧
            Overlaid s.graph (s.replace old new).1.graph
              (loopless (done.map (Arc.redirect old.text (s.key new)))) ∧
            f = .wouldCycle (a.redirect old.text (s.key new)).source
              (a.redirect old.text (s.key new)).target) := by
  by_cases hold : s.graph.contains old.text = true
  · obtain ⟨hfault, hgrown⟩ := replace_grown hold hrefused
    refine Or.inr ⟨hold, hfault, hgrown, fun hplaced => ?_⟩
    have hnotSpare : ¬ (s.key new = old.text ∨ s.graph.contains (s.key new) = false) := by
      intro hspare
      obtain ⟨g, -, -, hok⟩ := replace_of_spare hs.wellFormed hs.acyclic hplaced hold hspare
      rw [hok] at hrefused
      cases hrefused
    rw [not_or, Bool.not_eq_false] at hnotSpare
    obtain ⟨hne, hnew⟩ := hnotSpare
    refine ⟨hnew, hne, ?_⟩
    rcases replace_cases hs.wellFormed hs.acyclic hplaced hold with
      ⟨g, -, -, hok⟩ | ⟨done, a, rest, hincident, hover, -, herror⟩
    · rw [hok] at hrefused
      cases hrefused
    · rw [insert_of_contains hnew] at hover
      rw [herror] at hrefused
      cases hrefused
      exact ⟨done, a, rest, hincident, hover, rfl⟩
  · rw [Bool.not_eq_true] at hold
    rw [replace_of_missing hold] at hrefused ⊢
    cases hrefused
    exact Or.inl ⟨hold, rfl, rfl⟩

/-- The third resource cannot take the place of the first: it would come to depend on the second,
which depends on it.  Its new dependency on the fourth stays. -/
theorem replace_refused_fork :
    fork.Reachable ∧
      (fork.replace (fork.store.ident ⟨0⟩) ⟨2⟩).2 =
        .error (.wouldCycle "z::zone" "y::zone") ∧
      fork.Grown (fork.replace (fork.store.ident ⟨0⟩) ⟨2⟩).1 (fork.key (fork.insert ⟨2⟩).2) ∧
      ∃ done a rest, fork.graph.incident (fork.store.ident ⟨0⟩).text = done ++ a :: rest ∧
        Overlaid fork.graph (fork.replace (fork.store.ident ⟨0⟩) ⟨2⟩).1.graph
          (loopless (done.map (Arc.redirect (fork.store.ident ⟨0⟩).text (fork.key ⟨2⟩)))) := by
  have hrefused : (fork.replace (fork.store.ident ⟨0⟩) ⟨2⟩).2 =
      .error (.wouldCycle "z::zone" "y::zone") := rfl
  have hold : fork.graph.contains (fork.store.ident ⟨0⟩).text = true := by decide +kernel
  rcases replace_refused reachable_fork hrefused with ⟨hmissing, -⟩ | ⟨-, -, hgrown, hplaces⟩
  · rw [hold] at hmissing
    cases hmissing
  · obtain ⟨-, -, done, a, rest, hincident, hover, -⟩ := hplaces (filed_fork.placed _ _)
    exact ⟨reachable_fork, hrefused, hgrown, done, a, rest, hincident, hover⟩

/-- A refused replacement may leave dependencies behind, and also a resource if resources do not
keep their identities. -/
theorem not_forall_refused_unchanged :
    (¬ ∀ (s : Site) (old : Ident) (new : Handle) (f : Fault), s.Reachable →
        (s.replace old new).2 = .error f →
        (s.replace old new).1.graph.properties? = s.graph.properties?) ∧
      ¬ ∀ (s : Site) (old : Ident) (new : Handle) (f : Fault), s.Reachable →
        (s.replace old new).2 = .error f → (s.replace old new).1.graph.get? = s.graph.get? := by
  constructor
  · intro h
    have hsame := h fork (fork.store.ident ⟨0⟩) ⟨2⟩ _ reachable_fork rfl
    have hedge := congrArg Option.isSome (congrFun₂ hsame (fork.key ⟨2⟩) (fork.key ⟨3⟩))
    revert hedge
    decide +kernel
  · intro h
    have hsame := h namesake (fork.store.ident ⟨1⟩) ⟨4⟩ _ reachable_namesake rfl
    have hvertex := congrArg Option.isSome (congrFun hsame (fork.key ⟨4⟩))
    revert hvertex
    decide +kernel

end Reachable

end Groundwork.Site
