/-
Edges that are copied from one vertex to another.

When a vertex `n` takes the place of a vertex `x`, each edge at `x` is copied to `n`, and then `x`
goes with all its edges.  While the copies are made both vertices have edges to the same
neighbours.  If `n` is new, reading it as `x` takes every edge to an edge that was there before, so
no copy closes a cycle, and in the end the graph is the old one with a vertex renamed.

Main definitions:

* `Groundwork.Digraph.standIn`, `Groundwork.Digraph.Arc.redirect` — one vertex in the place of
  another, as an end of an edge;
* `Groundwork.Digraph.loopless`, `Groundwork.Digraph.Apart` — edges that are no loops, and edges
  that differ in an end;
* `Groundwork.Digraph.Overlaid` — one graph is another with some edges laid over it;
* `Groundwork.Digraph.copies` — the edges at one vertex, copied to another;
* `Groundwork.Digraph.Outline.rename` — an outline with one vertex renamed;
* `Groundwork.Digraph.TakesOver` — a vertex has taken over the edges of another.

Main results:

* `Groundwork.Digraph.Overlaid.connect`, `Groundwork.Digraph.Overlaid.append` — one edge, and more
  of them;
* `Groundwork.Digraph.Overlaid.not_leads` — no copy at a new vertex closes a cycle;
* `Groundwork.Digraph.Overlaid.outline_rename` — **copies at a new vertex make a renaming**;
* `Groundwork.Digraph.Overlaid.takesOver` — copies at any other vertex.
-/
import Groundwork.Proofs.Digraph.Acyclicity
import Groundwork.Proofs.Digraph.Outline

set_option relaxedAutoImplicit false
set_option autoImplicit false

namespace Groundwork.Digraph

open Relation

variable {V D : Type} {g g' g'' : Digraph V D} {x n y z : String} {l l' : List (Edge String D)}

/-! ### Edges by the ids of their ends -/

/-- The vertex `n` in the place of `x`, and every other vertex as it is. -/
def standIn (x n y : String) : String := if y = x then n else y

@[simp] theorem standIn_self (x n : String) : standIn x n x = n := if_pos rfl

theorem standIn_of_ne (h : y ≠ x) : standIn x n y = y := if_neg h

/-- Where an edge lies once `n` is in the place of `x`. -/
def Arc.redirect (x n : String) (a : Arc D) : Edge String D :=
  ⟨standIn x n a.source, standIn x n a.target, a.properties⟩

/-- The edges that are no loops. -/
def loopless (l : List (Edge String D)) : List (Edge String D) :=
  l.filter fun e => e.source ≠ e.target

theorem mem_loopless {e : Edge String D} : e ∈ loopless l ↔ e ∈ l ∧ e.source ≠ e.target := by
  rw [loopless, List.mem_filter, decide_eq_true_eq]

theorem loopless_append (l l' : List (Edge String D)) :
    loopless (l ++ l') = loopless l ++ loopless l' :=
  List.filter_append ..

/-- The edges do not have the same ends. -/
def Apart (e e' : Edge String D) : Prop := ¬ (e.source = e'.source ∧ e.target = e'.target)

/-- Whether an edge has the ends of one in the list. -/
def Arc.covered (l : List (Edge String D)) (a : Arc D) : Bool :=
  l.any fun e => a.joins e.source e.target

theorem Arc.covered_iff {a : Arc D} :
    a.covered l = true ↔ ∃ e ∈ l, a.source = e.source ∧ a.target = e.target := by
  simp only [covered, List.any_eq_true, joins_iff]

/-! ### Edges laid over a graph -/

/-- The graph `g'` is `g` with the edges of `l` added, or merged into what was there. -/
structure Overlaid (g g' : Digraph V D) (l : List (Edge String D)) : Prop where
  /-- The vertices are the same, and have the same values. -/
  get?_eq : ∀ x, g'.get? x = g.get? x
  /-- Each edge of the list is there and carries its properties over those that were there. -/
  carries : ∀ e ∈ l, g'.properties? e.source e.target =
    some ((g.properties? e.source e.target).elim e.properties (·.merge e.properties))
  /-- The other edges are as they were, with their slots and in their order. -/
  others_eq : g'.arcs.filter (fun a => !a.covered l) = g.arcs.filter (fun a => !a.covered l)

namespace Overlaid

theorem nil (g : Digraph V D) : Overlaid g g [] :=
  ⟨fun _ => rfl, fun _ he => absurd he List.not_mem_nil, rfl⟩

theorem contains_eq (h : Overlaid g g' l) (x : String) : g'.contains x = g.contains x := by
  rw [contains_eq_isSome_get?, h.get?_eq, contains_eq_isSome_get?]

/-- Whatever is said of edges that the list does not touch stays true. -/
theorem filter_arcs (h : Overlaid g g' l) {P : Arc D → Bool}
    (hP : ∀ a, P a = true → ∀ e ∈ l, ¬ (a.source = e.source ∧ a.target = e.target)) :
    g'.arcs.filter P = g.arcs.filter P := by
  have hfilter (arcs : List (Arc D)) :
      arcs.filter P = (arcs.filter fun a => !a.covered l).filter P := by
    rw [List.filter_filter]
    refine List.filter_congr fun a _ => ?_
    rw [Bool.eq_iff_iff, Bool.and_eq_true, Bool.not_eq_true', ← Bool.not_eq_true, Arc.covered_iff]
    refine (and_iff_left_of_imp fun ha => ?_).symm
    rintro ⟨e, he, hends⟩
    exact hP a ha e he hends
  rw [hfilter, h.others_eq, ← hfilter]

theorem properties?_eq (h : Overlaid g g' l) (hl : ∀ e ∈ l, ¬ (x = e.source ∧ y = e.target)) :
    g'.properties? x y = g.properties? x y := by
  have harcs := h.filter_arcs (P := Arc.joins x y) fun a ha e he hends => by
    obtain ⟨rfl, rfl⟩ := Arc.joins_iff.1 ha
    exact hl e he hends
  rw [properties?, arc?, ← List.head?_filter, harcs, List.head?_filter, properties?, arc?]

theorem adj_iff (h : Overlaid g g' l) :
    g'.Adj x y ↔ g.Adj x y ∨ ∃ e ∈ l, x = e.source ∧ y = e.target := by
  rw [← isSome_properties?_iff, ← isSome_properties?_iff]
  by_cases hl : ∃ e ∈ l, x = e.source ∧ y = e.target
  · obtain ⟨e, he, rfl, rfl⟩ := hl
    rw [h.carries e he]
    exact iff_of_true rfl (Or.inr ⟨e, he, rfl, rfl⟩)
  · rw [h.properties?_eq fun e he hends => hl ⟨e, he, hends⟩]
    exact (or_iff_left hl).symm

/-- One edge. -/
theorem connect (g : Digraph V D) (e : Edge String D) (hs : g.contains e.source = true)
    (ht : g.contains e.target = true) :
    Overlaid g (g.connect e.source e.target e.properties) [e] where
  get?_eq x := get?_connect g _ _ x _
  carries e' he' := by
    obtain rfl := List.mem_singleton.1 he'
    rw [properties?_connect e'.properties hs ht, if_pos ⟨rfl, rfl⟩]
  others_eq := by
    have hcovered : (fun a : Arc D => !a.covered [e]) = fun a => !a.joins e.source e.target := by
      funext a
      rw [Arc.covered, List.any_cons, List.any_nil, Bool.or_false]
    rw [hcovered, filter_arcs_connect]

/-- More edges, none of which has the ends of one that was laid before. -/
theorem append (h : Overlaid g g' l) (h' : Overlaid g' g'' l')
    (hapart : ∀ e ∈ l, ∀ e' ∈ l', Apart e e') : Overlaid g g'' (l ++ l') where
  get?_eq x := (h'.get?_eq x).trans (h.get?_eq x)
  carries e he := by
    rcases List.mem_append.1 he with he | he
    · rw [h'.properties?_eq fun e' he' => hapart e he e' he', h.carries e he]
    · have hold : ∀ e' ∈ l, ¬ (e.source = e'.source ∧ e.target = e'.target) := fun e' he' hends =>
        hapart e' he' e he ⟨hends.1.symm, hends.2.symm⟩
      rw [h'.carries e he, h.properties?_eq hold]
  others_eq := by
    have hfree : ∀ a : Arc D, (!a.covered (l ++ l')) = true →
        ∀ e ∈ l ++ l', ¬ (a.source = e.source ∧ a.target = e.target) := by
      intro a ha e he hends
      rw [Bool.not_eq_true', ← Bool.not_eq_true, Arc.covered_iff] at ha
      exact ha ⟨e, he, hends⟩
    rw [h'.filter_arcs fun a ha e he => hfree a ha e (List.mem_append_right l he),
      h.filter_arcs fun a ha e he => hfree a ha e (List.mem_append_left l' he)]

/-- The edges that enter a vertex stay in their order if none of the new ones enters it. -/
theorem edgesOf_incoming (h : Overlaid g g' l) (hl : ∀ e ∈ l, e.target ≠ x) :
    g'.edgesOf x .incoming = g.edgesOf x .incoming := by
  have hresolve : g'.resolve = g.resolve := by
    funext a
    rw [resolve, resolve, h.get?_eq, h.get?_eq]
  have harcs : g'.arcsAt x .incoming = g.arcsAt x .incoming :=
    h.filter_arcs fun a ha e he hends => hl e he (hends.2.symm.trans (beq_iff_eq.1 ha))
  rw [edgesOf, harcs, hresolve, edgesOf]

end Overlaid

/-! ### The edges at a vertex -/

/-- The edge with another value at the end from which a walk in this direction comes. -/
def Edge.withNear (d : Direction) (v : V) (e : Edge V D) : Edge V D :=
  match d with
  | .outgoing => { e with source := v }
  | .incoming => { e with target := v }

/-- What is listed of the edges at a vertex, read off the stored edges. -/
theorem WellFormed.map_edgesOf {β : Type} (hg : g.WellFormed) {d : Direction} {F : Edge V D → β}
    {f : Arc D → β}
    (h : ∀ a ∈ g.arcsAt x d, ∀ v w, g.get? a.source = some v → g.get? a.target = some w →
      F ⟨v, w, a.properties⟩ = f a) :
    (g.edgesOf x d).map F = (g.arcsAt x d).map f := by
  rw [edgesOf, List.map_filterMap, ← List.filterMap_eq_map]
  refine List.filterMap_congr fun a ha => ?_
  obtain ⟨v, hv⟩ := contains_iff.1 (hg.source_mem a (mem_arcsAt.1 ha).1)
  obtain ⟨w, hw⟩ := contains_iff.1 (hg.target_mem a (mem_arcsAt.1 ha).1)
  simp [resolve, hv, hw, h a ha v w hv hw]

theorem mem_incident {a : Arc D} :
    a ∈ g.incident x ↔ a ∈ g.arcs ∧ (a.source = x ∨ a.target = x) := by
  simp only [incident, List.mem_append, List.mem_filter, mem_arcsAt, Arc.near, bne_iff_ne]
  tauto

/-- Without loops, the edges at a vertex are those that leave it and those that enter it. -/
theorem Acyclic.incident_eq (hacyc : g.Acyclic) (x : String) :
    g.incident x = g.arcsAt x .outgoing ++ g.arcsAt x .incoming := by
  have hall : (g.arcsAt x .incoming).filter (fun a => a.source != x) = g.arcsAt x .incoming := by
    refine List.filter_eq_self.2 fun a ha => bne_iff_ne.2 ?_
    obtain ⟨hmem, hx⟩ := mem_arcsAt.1 ha
    exact fun hloop => hacyc.ne_of_adj ⟨a, hmem, rfl, rfl⟩ (hloop.trans hx.symm)
  rw [incident, hall]

/-- Two edges at `x` whose copies at `n` have the same ends are the same, unless the copies are
loops. -/
theorem eq_of_redirect {a b : Arc D} (ha : a.source = x ∨ a.target = x)
    (hb : b.source = x ∨ b.target = x) (hloop : a.source ≠ a.target ∧ b.source ≠ b.target)
    (hcopy : (a.redirect x n).source ≠ (a.redirect x n).target)
    (hends : ¬ Apart (a.redirect x n) (b.redirect x n)) :
    a.source = b.source ∧ a.target = b.target := by
  simp only [Apart, Arc.redirect, standIn] at hcopy hends
  grind

/-- The copies of the edges at a vertex differ in an end, those aside that are loops. -/
theorem WellFormed.apart_redirect (hg : g.WellFormed) (hacyc : g.Acyclic) (x n : String) :
    (loopless ((g.incident x).map (Arc.redirect x n))).Pairwise Apart := by
  have hsimple : (g.incident x).Pairwise
      fun a b => ¬ (a.source = b.source ∧ a.target = b.target) := by
    have hall := (Numbered.incident_append_perm g x).symm.pairwise hg.simple
      fun h heq => h ⟨heq.1.symm, heq.2.symm⟩
    exact (List.pairwise_append.1 hall).1
  have hloop : ∀ a ∈ g.incident x, a.source ≠ a.target := fun a ha =>
    hacyc.ne_of_adj ⟨a, (mem_incident.1 ha).1, rfl, rfl⟩
  rw [loopless, List.pairwise_filter, List.pairwise_map]
  refine hsimple.imp_of_mem fun {a b} ha hb hne hcopy _ => ?_
  by_contra hends
  exact hne (eq_of_redirect (mem_incident.1 ha).2 (mem_incident.1 hb).2 ⟨hloop a ha, hloop b hb⟩
    (of_decide_eq_true hcopy) hends)

/-! ### Copies at a new vertex -/

/-- No edge touches `n`, or there is nothing to rename. -/
def Spare (g : Digraph V D) (x n : String) : Prop :=
  ∀ a ∈ g.arcs, n = x ∨ (a.source ≠ n ∧ a.target ≠ n)

theorem standIn_standIn (h : n = x ∨ y ≠ n) : standIn n x (standIn x n y) = y := by
  simp only [standIn]
  grind

theorem standIn_eq_self (h : n = x ∨ y ≠ n) : standIn n x y = y := by
  simp only [standIn]
  grind

namespace Overlaid

variable {done : List (Arc D)}

/-- Reading `n` as `x` takes every edge to one that was there before the copies were made. -/
theorem adj_standIn (h : Overlaid g g' (loopless (done.map (Arc.redirect x n))))
    (hdone : ∀ a ∈ done, a ∈ g.arcs) (hn : g.Spare x n) (hadj : g'.Adj y z) :
    g.Adj (standIn n x y) (standIn n x z) := by
  have hends (a : Arc D) (ha : a ∈ g.arcs) : (n = x ∨ a.source ≠ n) ∧ (n = x ∨ a.target ≠ n) :=
    ⟨(hn a ha).imp_right And.left, (hn a ha).imp_right And.right⟩
  rcases h.adj_iff.1 hadj with ⟨a, ha, rfl, rfl⟩ | ⟨e, he, rfl, rfl⟩
  · rw [standIn_eq_self (hends a ha).1, standIn_eq_self (hends a ha).2]
    exact ⟨a, ha, rfl, rfl⟩
  · obtain ⟨a, hmem, rfl⟩ := List.mem_map.1 (mem_loopless.1 he).1
    have ha := hdone a hmem
    rw [Arc.redirect, standIn_standIn (hends a ha).1, standIn_standIn (hends a ha).2]
    exact ⟨a, ha, rfl, rfl⟩

/-- No copy at a new vertex closes a cycle, whichever copies are there already. -/
theorem not_leads (h : Overlaid g g' (loopless (done.map (Arc.redirect x n))))
    (hdone : ∀ a ∈ done, a ∈ g.arcs) (hn : g.Spare x n) (hacyc : g.Acyclic) {a : Arc D}
    (ha : a ∈ g.arcs) : ¬ g'.Leads (a.redirect x n).target (a.redirect x n).source := by
  intro hleads
  have hback : g.Leads (standIn n x (a.redirect x n).target)
      (standIn n x (a.redirect x n).source) :=
    TransGen.lift (standIn n x) (fun _ _ => h.adj_standIn hdone hn) _ _ hleads
  rw [Arc.redirect, standIn_standIn ((hn a ha).imp_right And.right),
    standIn_standIn ((hn a ha).imp_right And.left)] at hback
  exact hacyc a.source (TransGen.head ⟨a, ha, rfl, rfl⟩ hback)

end Overlaid

/-! ### Copies of all edges at a vertex -/

/-- The edges of `g` at `x`, copied to `n`. -/
def copies (g : Digraph V D) (x n : String) : List (Edge String D) :=
  loopless ((g.incident x).map (Arc.redirect x n))

theorem mem_copies {e : Edge String D} : e ∈ g.copies x n ↔
    ∃ a ∈ g.arcs, (a.source = x ∨ a.target = x) ∧ a.redirect x n = e ∧ e.source ≠ e.target := by
  rw [copies, mem_loopless, List.mem_map]
  constructor
  · rintro ⟨⟨a, ha, rfl⟩, hne⟩
    exact ⟨a, (mem_incident.1 ha).1, (mem_incident.1 ha).2, rfl, hne⟩
  · rintro ⟨a, ha, hx, rfl, hne⟩
    exact ⟨⟨a, mem_incident.2 ⟨ha, hx⟩, rfl⟩, hne⟩

theorem touches_of_mem_copies {e : Edge String D} (he : e ∈ g.copies x n) :
    e.source = n ∨ e.target = n := by
  obtain ⟨a, -, ha, rfl, -⟩ := mem_copies.1 he
  refine ha.imp (fun hs => ?_) (fun ht => ?_)
  · rw [Arc.redirect, hs, standIn_self]
  · rw [Arc.redirect, ht, standIn_self]

/-- The outline with the vertex `x` renamed to `n`, which has the value `v`. -/
def Outline.rename (m : Outline V D) (x n : String) (v : V) : Outline V D where
  value y := if y = n then some v else if y = x then none else m.value y
  carried y z := if y = x ∨ z = x then none else m.carried (standIn n x y) (standIn n x z)

/-- The vertex `x` of `g` is gone in `g'`, and `n` has its edges. -/
structure TakesOver (g g' : Digraph V D) (x n : String) : Prop where
  /-- The vertex that takes over is there. -/
  contains : g'.contains n = true
  /-- The vertex in whose place it is has gone. -/
  gone : x ≠ n → g'.contains x = false
  /-- Every edge from `x` to another vertex has become one from `n`. -/
  leaving : ∀ y, y ≠ x → y ≠ n → g.Adj x y → g'.Adj n y
  /-- Every edge from another vertex to `x` has become one to `n`. -/
  entering : ∀ y, y ≠ x → y ≠ n → g.Adj y x → g'.Adj y n
  /-- Every edge that `n` had with another vertex is still there. -/
  kept : ∀ y, y ≠ x → (g.Adj n y → g'.Adj n y) ∧ (g.Adj y n → g'.Adj y n)
  /-- Between other vertices nothing has changed. -/
  others_eq : ∀ y z, y ≠ x → y ≠ n → z ≠ x → z ≠ n → g'.properties? y z = g.properties? y z

namespace Overlaid

/-- An edge at `x` and its copy. -/
theorem adj_copy (h : Overlaid g g' (g.copies x n)) (hyz : g.Adj y z) (hx : y = x ∨ z = x)
    (hne : standIn x n y ≠ standIn x n z) : g'.Adj (standIn x n y) (standIn x n z) := by
  obtain ⟨a, ha, rfl, rfl⟩ := hyz
  exact h.adj_iff.2 (Or.inr ⟨a.redirect x n, mem_copies.2 ⟨a, ha, hx, rfl, hne⟩, rfl, rfl⟩)

/-- Copies change nothing away from the vertex that gets them. -/
theorem properties?_copies (h : Overlaid g g' (g.copies x n)) (hy : y ≠ n) (hz : z ≠ n) :
    g'.properties? y z = g.properties? y z := by
  refine h.properties?_eq fun e he hends => ?_
  rcases touches_of_mem_copies he with hs | ht
  · exact hy (hends.1.trans hs)
  · exact hz (hends.2.trans ht)

/-- Copies of edges onto themselves go with the vertex. -/
theorem outline_eraseVertex (h : Overlaid g g' (g.copies x x)) :
    (g'.eraseVertex x).outline = g.outline.eraseVertex x := by
  refine Outline.ext (funext fun y => ?_) (funext₂ fun y z => ?_)
  · change (g'.eraseVertex x).get? y = if x = y then none else g.get? y
    rw [get?_eraseVertex, h.get?_eq]
  · change (g'.eraseVertex x).properties? y z = if y = x ∨ z = x then none else g.properties? y z
    rw [properties?_eraseVertex]
    split
    case isTrue => rfl
    case isFalse hyz =>
        rw [not_or] at hyz
        exact h.properties?_copies hyz.1 hyz.2

/-- **Copies at a vertex that is there let it take over**, once the other one has gone. -/
theorem takesOver (h : Overlaid g g' (g.copies x n)) (hn : g.contains n = true) (hne : x ≠ n) :
    TakesOver g (g'.eraseVertex x) x n where
  contains := (contains_eraseVertex g' x n).2 ⟨hne.symm, (h.contains_eq n).trans hn⟩
  gone _ := by
    rw [← Bool.not_eq_true, contains_eraseVertex]
    exact fun hx => hx.1 rfl
  leaving y hyx hyn hxy := by
    have hcopy := h.adj_copy (n := n) hxy (Or.inl rfl)
    rw [standIn_self, standIn_of_ne hyx] at hcopy
    exact (adj_eraseVertex g' x n y).2 ⟨hcopy hyn.symm, hne.symm, hyx⟩
  entering y hyx hyn hyx' := by
    have hcopy := h.adj_copy (n := n) hyx' (Or.inr rfl)
    rw [standIn_self, standIn_of_ne hyx] at hcopy
    exact (adj_eraseVertex g' x y n).2 ⟨hcopy hyn, hyx, hne.symm⟩
  kept y hyx :=
    ⟨fun hny => (adj_eraseVertex g' x n y).2 ⟨h.adj_iff.2 (Or.inl hny), hne.symm, hyx⟩,
      fun hyn => (adj_eraseVertex g' x y n).2 ⟨h.adj_iff.2 (Or.inl hyn), hyx, hne.symm⟩⟩
  others_eq y z hyx hyn hzx hzn := by
    rw [properties?_eraseVertex, if_neg (not_or.2 ⟨hyx, hzx⟩), h.properties?_copies hyn hzn]

/-- Once all edges at `x` are copied to a vertex without edges, every edge is found where its ends
have moved, with what it carried. -/
theorem properties?_redirect (h : Overlaid g g' (g.copies x n)) (hg : g.WellFormed)
    (hacyc : g.Acyclic) (hn : ∀ a ∈ g.arcs, a.source ≠ n ∧ a.target ≠ n) {a : Arc D}
    (ha : a ∈ g.arcs) :
    g'.properties? (a.redirect x n).source (a.redirect x n).target = some a.properties := by
  by_cases hat : a.source = x ∨ a.target = x
  · have hne : (a.redirect x n).source ≠ (a.redirect x n).target := by
      intro heq
      have hback := congrArg (standIn n x) heq
      rw [Arc.redirect, standIn_standIn (Or.inr (hn a ha).1),
        standIn_standIn (Or.inr (hn a ha).2)] at hback
      exact hacyc.ne_of_adj ⟨a, ha, rfl, rfl⟩ hback
    have hcopy : a.redirect x n ∈ g.copies x n := mem_copies.2 ⟨a, ha, hat, rfl, hne⟩
    have hnone : g.properties? (a.redirect x n).source (a.redirect x n).target = none := by
      refine properties?_eq_none_iff.2 ?_
      rintro ⟨b, hb, hs, ht⟩
      exact (touches_of_mem_copies hcopy).elim (fun hn' => (hn b hb).1 (hs.trans hn'))
        (fun hn' => (hn b hb).2 (ht.trans hn'))
    rw [h.carries _ hcopy, hnone]
    rfl
  · rw [not_or] at hat
    rw [Arc.redirect, standIn_of_ne hat.1, standIn_of_ne hat.2,
      h.properties?_copies (hn a ha).1 (hn a ha).2]
    exact hg.properties?_eq_some_iff.2 ⟨a, ha, rfl, rfl, rfl⟩

/-- **Copies at a new vertex make a renaming**, once the old vertex has gone. -/
theorem outline_rename {v : V} (h : Overlaid (g.insertVertex n v) g' (g.copies x n))
    (hg : g.WellFormed) (hacyc : g.Acyclic) (hx : g.contains x = true)
    (hn : g.contains n = false) : (g'.eraseVertex x).outline = g.outline.rename x n v := by
  have hfresh : ∀ y, g.contains y = true → y ≠ n := fun y hy heq => by simp [heq, hn] at hy
  have hends : ∀ a ∈ g.arcs, a.source ≠ n ∧ a.target ≠ n := fun a ha =>
    ⟨hfresh _ (hg.source_mem a ha), hfresh _ (hg.target_mem a ha)⟩
  refine Outline.ext (funext fun y => ?_) (funext₂ fun y z => ?_)
  · have hxn := hfresh x hx
    change (g'.eraseVertex x).get? y = if y = n then some v else if y = x then none else g.get? y
    rw [get?_eraseVertex, h.get?_eq, get?_insertVertex]
    grind
  · change (g'.eraseVertex x).properties? y z =
      if y = x ∨ z = x then none else g.properties? (standIn n x y) (standIn n x z)
    rw [properties?_eraseVertex]
    split
    case isTrue => rfl
    case isFalse hyz =>
        rw [not_or] at hyz
        by_cases hadj : g.Adj (standIn n x y) (standIn n x z)
        · obtain ⟨a, ha, hs, ht⟩ := hadj
          have hmoved := h.properties?_redirect (hg.insertVertex n v) hacyc hends ha
          rw [Arc.redirect, hs, ht, standIn_standIn (Or.inr hyz.1),
            standIn_standIn (Or.inr hyz.2)] at hmoved
          rw [hmoved, hg.properties?_eq_some_iff.2 ⟨a, ha, hs, ht, rfl⟩]
        · -- an edge that is there now would have been there under the old name
          have hnone : ¬ g'.Adj y z := fun hnow => hadj
            (h.adj_standIn (fun a ha => (mem_incident.1 ha).1) (fun a ha => Or.inr (hends a ha))
              hnow)
          rw [properties?_eq_none_iff.2 hadj, properties?_eq_none_iff.2 hnone]

end Overlaid

end Groundwork.Digraph
