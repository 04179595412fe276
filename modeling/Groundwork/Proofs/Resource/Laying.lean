/-
Dependencies that are added in turn.

A list of dependencies is added one after the other, each after its own test for cycles, until one
is refused.  What this leaves behind is known exactly: the graph with the edges laid over it, all
of them or those before the one that was refused.  A replacement is such a list, followed by the
removal of the old resource.

Main definitions:

* `Groundwork.Site.Laid` — edges that were laid over the graph of a site in turn, all of them or up
  to one that would have closed a cycle;
* `Groundwork.Site.Placed` — the resources that a replacement meets are in their places;
* `Groundwork.Site.handOver` — the part of a replacement that copies edges.

Main results:

* `Groundwork.Site.laid_attempt` — what a list of dependencies leaves behind;
* `Groundwork.Site.laid_handOver` — what the copies leave behind;
* `Groundwork.Site.replace_cases` — the two ends of a replacement;
* `Groundwork.Site.replace_of_spare` — a replacement by a resource with a new text, or with the
  same text, is never refused.
-/
import Groundwork.Proofs.Digraph.Copying
import Groundwork.Proofs.Resource.Depending

set_option relaxedAutoImplicit false
set_option autoImplicit false

namespace Groundwork.Site

open Groundwork.Digraph (Arc Edge Edits Overlaid loopless Apart standIn)

variable {s t u : Site} {a b new : Handle} {old : Ident} {l l' : List (Edge String Payload)}
  {r : Except Fault Unit} {f : Fault}

/-! ### Dependencies in turn -/

/-- An edge between resources, with the texts of its ends. -/
def named (s : Site) (e : Edge Handle Payload) : Edge String Payload :=
  ⟨s.key e.source, s.key e.target, e.properties⟩

/-- The edges of a list were laid over the graph of a site, each one unless it is a loop. -/
inductive Laid (s : Site) : List (Edge String Payload) → Site → Except Fault Unit → Prop
  /-- All of them are there. -/
  | all {l : List (Edge String Payload)} {t : Site} : t.store = s.store →
      Overlaid s.graph t.graph (loopless l) → Laid s l t (.ok ())
  /-- Only those are there that come before one that would have closed a cycle. -/
  | upTo {done rest : List (Edge String Payload)} {e : Edge String Payload} {t : Site} :
      t.store = s.store → Overlaid s.graph t.graph (loopless done) → e.source ≠ e.target →
      t.graph.Leads e.target e.source →
      Laid s (done ++ e :: rest) t (.error (.wouldCycle e.source e.target))

namespace Laid

theorem nil (s : Site) : Laid s [] s (.ok ()) := all rfl (Overlaid.nil s.graph)

theorem store_eq (h : Laid s l t r) : t.store = s.store := by
  cases h <;> assumption

theorem named_eq (h : Laid s l t r) : t.named = s.named := by
  funext e
  rw [named, named, key, key, h.store_eq, key, key]

theorem overlaid (h : Laid s l t (.ok ())) : Overlaid s.graph t.graph (loopless l) := by
  cases h
  assumption

/-- Nothing is laid after the edge that failed. -/
theorem append_of_error (h : Laid s l t (.error f)) (l' : List (Edge String Payload)) :
    Laid s (l ++ l') t (.error f) := by
  cases h with
  | upTo hstore hover hne hleads =>
      rw [List.append_assoc, List.cons_append]
      exact upTo hstore hover hne hleads

theorem append (h : Laid s l t (.ok ())) (h' : Laid t l' u r)
    (hapart : (loopless (l ++ l')).Pairwise Apart) : Laid s (l ++ l') u r := by
  rw [Digraph.loopless_append, List.pairwise_append] at hapart
  obtain ⟨-, -, hcross⟩ := hapart
  cases h with
  | all hstore hover =>
      cases h' with
      | all hstore' hover' =>
          refine all (hstore'.trans hstore) ?_
          rw [Digraph.loopless_append]
          exact hover.append hover' hcross
      | @upTo done rest e _ hstore' hover' hne hleads =>
          rw [← List.append_assoc]
          refine upTo (hstore'.trans hstore) ?_ hne hleads
          rw [Digraph.loopless_append]
          refine hover.append hover' fun e he e' he' => hcross e he e' ?_
          rw [Digraph.loopless_append]
          exact List.mem_append_left _ he'

end Laid

/-- One dependency between filed resources. -/
theorem laid_depend (hg : s.graph.WellFormed) (ha : s.graph.contains (s.key a) = true)
    (hb : s.graph.contains (s.key b) = true) (p : Properties Payload) :
    s.Laid [⟨s.key a, s.key b, p⟩] (s.depend a b p).1 (s.depend a b p).2 := by
  by_cases heq : s.key a = s.key b
  · have hloop : loopless [(⟨s.key a, s.key b, p⟩ : Edge String Payload)] = [] := by
      simp [loopless, heq]
    rw [depend, if_pos heq]
    refine .all rfl ?_
    rw [hloop]
    exact Overlaid.nil s.graph
  · by_cases hleads : s.graph.Leads (s.key b) (s.key a)
    · rw [depend_of_leads hg heq hleads]
      have hnone : Overlaid s.graph s.graph (loopless []) := Overlaid.nil s.graph
      exact .upTo rfl hnone heq hleads
    · have hproper : loopless [(⟨s.key a, s.key b, p⟩ : Edge String Payload)] =
          [⟨s.key a, s.key b, p⟩] := by simp [loopless, heq]
      have hends : s.insertEnds a b = s := by
        rw [insertEnds, insert_of_contains ha, insert_of_contains hb]
      rw [depend_of_not_leads hg heq hleads, hends]
      refine .all rfl ?_
      rw [hproper]
      exact Overlaid.connect s.graph ⟨s.key a, s.key b, p⟩ ha hb

/-- **What a list of dependencies leaves behind.**  The ends are filed, and no two dependencies
have the same ends. -/
theorem laid_attempt (hg : s.graph.WellFormed) {es : List (Edge Handle Payload)}
    (hends : ∀ e ∈ es.map s.named,
      s.graph.contains e.source = true ∧ s.graph.contains e.target = true)
    (hapart : (loopless (es.map s.named)).Pairwise Apart) :
    s.Laid (es.map s.named)
      (s.attempt (es.map fun e u => u.depend e.source e.target e.properties)).1
      (s.attempt (es.map fun e u => u.depend e.source e.target e.properties)).2 := by
  induction es generalizing s with
  | nil => exact Laid.nil s
  | cons e es ih =>
      obtain ⟨ha, hb⟩ := hends _ List.mem_cons_self
      have hfirst := laid_depend hg ha hb e.properties
      have hkept := edits_depend s e.source e.target e.properties
      rw [List.map_cons, List.map_cons, attempt]
      split
      case h_1 t heq =>
          rw [heq] at hfirst hkept
          have hrest : (loopless (es.map s.named)).Pairwise Apart :=
            hapart.sublist ((List.sublist_cons_self _ _).filter _)
          have hlaid := ih (s := t) (hkept.wellFormed hg)
          simp only [hfirst.named_eq, hfirst.overlaid.contains_eq] at hlaid
          exact hfirst.append (hlaid (fun e' he' => hends e' (List.mem_cons_of_mem _ he')) hrest)
            hapart
      case h_2 t f heq =>
          rw [heq] at hfirst
          exact hfirst.append_of_error _

/-! ### What a replacement meets -/

/-- The resources that a replacement meets are in their places. -/
structure Placed (s : Site) (old : Ident) (new : Handle) : Prop where
  /-- The one that is replaced. -/
  old_inPlace : s.InPlace old.text
  /-- The one that the graph has under the text of the new one. -/
  new_inPlace : s.InPlace (s.key new)
  /-- Those on either side of the one that is replaced. -/
  neighbours : ∀ y, s.graph.Adj old.text y ∨ s.graph.Adj y old.text → s.InPlace y

theorem Filed.placed (hs : s.Filed) (old : Ident) (new : Handle) : s.Placed old new :=
  ⟨hs.inPlace _, hs.inPlace _, fun y _ => hs.inPlace y⟩

/-- The edges at a resource, with another one in its place. -/
theorem map_named_edgesOf (hg : s.graph.WellFormed) (hacyc : s.graph.Acyclic) {x : String}
    {d : Direction} (hfar : ∀ a ∈ s.graph.arcsAt x d, s.InPlace (a.far d)) (c : Handle) :
    ((s.graph.edgesOf x d).map (Edge.withNear d c)).map s.named =
      (s.graph.arcsAt x d).map (Arc.redirect x (s.key c)) := by
  rw [List.map_map]
  refine hg.map_edgesOf fun a ha v w hv hw => ?_
  obtain ⟨hmem, hnear⟩ := Digraph.mem_arcsAt.1 ha
  have hne := hacyc.ne_of_adj ⟨a, hmem, rfl, rfl⟩
  cases d with
  | outgoing =>
      have hw' : s.key w = a.target := hfar a ha w hw
      have hx : a.source = x := hnear
      have hy : a.target ≠ x := fun heq => hne (hx.trans heq.symm)
      rw [Arc.redirect, hx, Digraph.standIn_self, Digraph.standIn_of_ne hy, ← hw']
      rfl
  | incoming =>
      have hv' : s.key v = a.source := hfar a ha v hv
      have hx : a.target = x := hnear
      have hy : a.source ≠ x := fun heq => hne (heq.trans hx.symm)
      rw [Arc.redirect, hx, Digraph.standIn_self, Digraph.standIn_of_ne hy, ← hv']
      rfl

theorem key_insert_snd (hs : s.InPlace (s.key new)) : s.key (s.insert new).2 = s.key new := by
  rw [insert]
  split
  case h_1 stored hstored => exact hs stored hstored
  case h_2 => rfl

theorem contains_insert_self (s : Site) (new : Handle) :
    (s.insert new).1.graph.contains (s.key new) = true := by
  rw [Digraph.contains_eq_isSome_get?, get?_insert, if_pos rfl, Option.isSome_or, Option.isSome_some,
    Bool.or_true]

/-- Copies of edges end at vertices that are there. -/
theorem contains_redirect (hg : s.graph.WellFormed) {x n : String}
    (hn : s.graph.contains n = true) {as : List (Arc Payload)} (has : ∀ a ∈ as, a ∈ s.graph.arcs) :
    ∀ e ∈ as.map (Arc.redirect x n),
      s.graph.contains e.source = true ∧ s.graph.contains e.target = true := by
  have hstand (y : String) (hy : s.graph.contains y = true) :
      s.graph.contains (standIn x n y) = true := by
    rw [standIn]
    split
    · exact hn
    · exact hy
  intro e he
  obtain ⟨a, ha, rfl⟩ := List.mem_map.1 he
  exact ⟨hstand _ (hg.source_mem a (has a ha)), hstand _ (hg.target_mem a (has a ha))⟩

/-! ### The edges of one resource to another -/

/-- The edges on one side of a resource are copied to another one. -/
def handSide (s : Site) (present new : Handle) (d : Direction) : Site × Except Fault Unit :=
  s.attempt ((s.graph.edgesOf (s.key present) d).map fun e u =>
    let e := e.withNear d new
    u.depend e.source e.target e.properties)

/-- The edges of a resource are copied to another one, first those that leave it and then those
that enter it. -/
def handOver (s : Site) (present new : Handle) : Site × Except Fault Unit :=
  match s.handSide present new .outgoing with
  | (t, .error f) => (t, .error f)
  | (t, .ok ()) => t.handSide present new .incoming

theorem replace_of_missing (h : s.graph.contains old.text = false) (new : Handle) :
    s.replace old new = (s, .error (.vertexNotFound old.text)) := by
  have hnone : s.find? old = none := by
    rw [Digraph.contains_eq_isSome_get?, Option.isSome_eq_false_iff, Option.isNone_iff_eq_none] at h
    exact h
  rw [replace, hnone]

theorem replace_of_find? {present : Handle} (h : s.find? old = some present) (new : Handle) :
    s.replace old new = match (s.insert new).1.handOver present (s.insert new).2 with
      | (t, .error f) => (t, .error f)
      | (t, .ok ()) => t.erase old := by
  rcases heq : (s.insert new).1.handSide present (s.insert new).2 .outgoing with ⟨t, r⟩
  rw [replace, h, handOver, heq]
  rw [handSide] at heq
  dsimp only [Edge.withNear] at heq ⊢
  rw [heq]
  cases r <;> rfl

/-- The edges on one side of a resource, as they were before others were laid over the graph. -/
theorem Laid.handSide (h : s.Laid l t (.ok ())) (hg : s.graph.WellFormed) (ht : t.graph.WellFormed)
    (hacyc : s.graph.Acyclic) {present : Handle} {d : Direction}
    (hfar : ∀ a ∈ s.graph.arcsAt (s.key present) d, s.InPlace (a.far d))
    (hnew : s.graph.contains (s.key new) = true)
    (hedges : t.graph.edgesOf (t.key present) d = s.graph.edgesOf (s.key present) d) :
    t.Laid ((s.graph.arcsAt (s.key present) d).map (Arc.redirect (s.key present) (s.key new)))
      (t.handSide present new d).1 (t.handSide present new d).2 := by
  have hnamed := map_named_edgesOf hg hacyc hfar new
  have hends := contains_redirect (x := s.key present) hg hnew fun a
    (ha : a ∈ s.graph.arcsAt (s.key present) d) => (Digraph.mem_arcsAt.1 ha).1
  have hsub : (s.graph.arcsAt (s.key present) d).Sublist (s.graph.incident (s.key present)) := by
    rw [hacyc.incident_eq]
    cases d with
    | outgoing => exact List.sublist_append_left _ _
    | incoming => exact List.sublist_append_right _ _
  have hapart := (hg.apart_redirect hacyc (s.key present) (s.key new)).sublist
    ((hsub.map _).filter _)
  rw [← hnamed, ← h.named_eq, ← hedges] at hends hapart
  have hlaid := laid_attempt ht
    (fun e he => ⟨(h.overlaid.contains_eq _).trans (hends e he).1,
      (h.overlaid.contains_eq _).trans (hends e he).2⟩) hapart
  rw [hedges, h.named_eq, hnamed, List.map_map] at hlaid
  rw [Site.handSide, hedges]
  exact hlaid

/-- The copies are laid over the graph. -/
theorem laid_handOver (hg : s.graph.WellFormed) (hacyc : s.graph.Acyclic) {present : Handle}
    (hfar : ∀ d, ∀ a ∈ s.graph.arcsAt (s.key present) d, s.InPlace (a.far d))
    (hnew : s.graph.contains (s.key new) = true) :
    s.Laid ((s.graph.incident (s.key present)).map (Arc.redirect (s.key present) (s.key new)))
      (s.handOver present new).1 (s.handOver present new).2 := by
  have hapart := hg.apart_redirect hacyc (s.key present) (s.key new)
  have hleaving := (Laid.nil s).handSide hg hg hacyc (hfar .outgoing) hnew rfl
  have hkept : Edits s.graph (s.handSide present new .outgoing).1.graph :=
    (stable_edits s.graph).attempt_depend (Edits.refl _) _ _ _ _
  rw [hacyc.incident_eq, List.map_append] at hapart ⊢
  rw [handOver]
  split
  case h_1 t f heq =>
      rw [heq] at hleaving
      exact hleaving.append_of_error _
  case h_2 t heq =>
      rw [heq] at hleaving hkept
      have hkey : t.key present = s.key present := by rw [key, hleaving.store_eq, key]
      -- a copy of an edge that leaves the resource does not enter it
      have henter : ∀ e ∈ loopless ((s.graph.arcsAt (s.key present) .outgoing).map
          (Arc.redirect (s.key present) (s.key new))), e.target ≠ s.key present := by
        intro e he
        obtain ⟨a, ha, rfl⟩ := List.mem_map.1 (Digraph.mem_loopless.1 he).1
        obtain ⟨hmem, hnear⟩ := Digraph.mem_arcsAt.1 ha
        have hne : a.target ≠ s.key present := fun heq' =>
          hacyc.ne_of_adj ⟨a, hmem, rfl, rfl⟩ (hnear.trans heq'.symm)
        rw [Arc.redirect, Digraph.standIn_of_ne hne]
        exact hne
      refine hleaving.append (hleaving.handSide hg (hkept.wellFormed hg) hacyc (hfar .incoming) hnew
        ?_) hapart
      rw [hkey, hleaving.overlaid.edgesOf_incoming henter]

/-! ### The two ends of a replacement -/

theorem store_replace (s : Site) (old : Ident) (new : Handle) :
    (s.replace old new).1.store = s.store := by
  have hstable : Stable fun u : Site => u.store = s.store :=
    { insert := fun u h hu => (store_insert u h).trans hu
      erase := fun u i hu => by
        rw [erase]
        split <;> exact hu
      wire := fun u source target p hu => by
        rw [wire]
        split <;> exact hu
      release := fun u source target hu => by
        rw [release]
        split <;> exact hu }
  exact hstable.replace rfl old new

theorem incident_insert (s : Site) (h : Handle) (x : String) :
    (s.insert h).1.graph.incident x = s.graph.incident x := by
  simp only [Digraph.incident, Digraph.arcsAt, arcs_insert]

theorem laid_cases {as : List (Arc Payload)} {x n : String}
    (h : s.Laid (as.map (Arc.redirect x n)) t r) :
    (r = .ok () ∧ Overlaid s.graph t.graph (loopless (as.map (Arc.redirect x n)))) ∨
      ∃ done a rest, as = done ++ a :: rest ∧
        Overlaid s.graph t.graph (loopless (done.map (Arc.redirect x n))) ∧
        (a.redirect x n).source ≠ (a.redirect x n).target ∧
        t.graph.Leads (a.redirect x n).target (a.redirect x n).source ∧
        r = .error (.wouldCycle (a.redirect x n).source (a.redirect x n).target) := by
  generalize hl : as.map (Arc.redirect x n) = l at h
  cases h with
  | all _ hover => exact Or.inl ⟨rfl, hover⟩
  | upTo _ hover hne hleads =>
      obtain ⟨done, rest, rfl, rfl, htail⟩ := List.map_eq_append_iff.1 hl
      obtain ⟨a, rest, rfl, rfl, -⟩ := List.map_eq_cons_iff.1 htail
      exact Or.inr ⟨done, a, rest, rfl, hover, hne, hleads, rfl⟩

/-- **A replacement copies all edges and removes the old resource, or it stops at the first copy
that would close a cycle.** -/
theorem replace_cases (hg : s.graph.WellFormed) (hacyc : s.graph.Acyclic) (hs : s.Placed old new)
    (hold : s.graph.contains old.text = true) :
    (∃ g, Overlaid (s.insert new).1.graph g (s.graph.copies old.text (s.key new)) ∧
        (s.replace old new).1.graph = g.eraseVertex old.text ∧ (s.replace old new).2 = .ok ()) ∨
      ∃ done a rest, s.graph.incident old.text = done ++ a :: rest ∧
        Overlaid (s.insert new).1.graph (s.replace old new).1.graph
          (loopless (done.map (Arc.redirect old.text (s.key new)))) ∧
        (s.replace old new).1.graph.Leads (a.redirect old.text (s.key new)).target
          (a.redirect old.text (s.key new)).source ∧
        (s.replace old new).2 = .error (.wouldCycle (a.redirect old.text (s.key new)).source
          (a.redirect old.text (s.key new)).target) := by
  obtain ⟨present, hpresent⟩ := Digraph.contains_iff.1 hold
  have hfar : ∀ d, ∀ a ∈ (s.insert new).1.graph.arcsAt old.text d,
      (s.insert new).1.InPlace (a.far d) := by
    intro d a ha
    obtain ⟨hmem, hnear⟩ := Digraph.mem_arcsAt.1 ha
    rw [arcs_insert] at hmem
    refine (hs.neighbours _ ?_).insert new
    cases d with
    | outgoing => exact Or.inl ⟨a, hmem, hnear, rfl⟩
    | incoming => exact Or.inr ⟨a, hmem, rfl, hnear⟩
  have hkey : (s.insert new).1.key present = old.text := by
    rw [key, store_insert]
    exact hs.old_inPlace present hpresent
  have hnew : (s.insert new).1.key (s.insert new).2 = s.key new := by
    rw [key, store_insert]
    exact key_insert_snd hs.new_inPlace
  have hlaid := laid_handOver ((edits_insert s new).wellFormed hg)
    ((edits_insert s new).acyclic hg hacyc) (hkey ▸ hfar) (hnew ▸ contains_insert_self s new)
  rw [incident_insert, hkey, hnew] at hlaid
  rw [replace_of_find? hpresent]
  generalize (s.insert new).1.handOver present (s.insert new).2 = o at hlaid
  obtain ⟨t, r⟩ := o
  rcases laid_cases hlaid with ⟨rfl, hover⟩ | ⟨done, a, rest, hincident, hover, -, hleads, rfl⟩
  · have ht : t.graph.contains old.text = true := by
      rw [hover.contains_eq]
      exact contains_of_insert hold new
    refine Or.inl ⟨t.graph, hover, ?_⟩
    change (t.erase old).1.graph = _ ∧ (t.erase old).2 = _
    rw [erase, if_pos ht]
    exact ⟨rfl, rfl⟩
  · exact Or.inr ⟨done, a, rest, hincident, hover, hleads, rfl⟩

/-- No copy closes a cycle if the new text is not taken, or is that of the old resource. -/
theorem replace_of_spare (hg : s.graph.WellFormed) (hacyc : s.graph.Acyclic) (hs : s.Placed old new)
    (hold : s.graph.contains old.text = true)
    (hnew : s.key new = old.text ∨ s.graph.contains (s.key new) = false) :
    ∃ g, Overlaid (s.insert new).1.graph g (s.graph.copies old.text (s.key new)) ∧
      (s.replace old new).1.graph = g.eraseVertex old.text ∧ (s.replace old new).2 = .ok () := by
  rcases replace_cases hg hacyc hs hold with h | ⟨done, a, rest, hincident, hover, hleads, -⟩
  · exact h
  · have harcs : ∀ b ∈ done ++ a :: rest, b ∈ (s.insert new).1.graph.arcs := by
      intro b hb
      rw [← hincident] at hb
      rw [arcs_insert]
      exact (Digraph.mem_incident.1 hb).1
    have hspare : (s.insert new).1.graph.Spare old.text (s.key new) := by
      intro b hb
      rw [arcs_insert] at hb
      refine hnew.imp_right fun hfree => ⟨fun heq => ?_, fun heq => ?_⟩
      · simp [← heq, hg.source_mem b hb] at hfree
      · simp [← heq, hg.target_mem b hb] at hfree
    exact absurd hleads (hover.not_leads (fun b hb => harcs b (List.mem_append_left _ hb)) hspare
      ((edits_insert s new).acyclic hg hacyc)
      (harcs a (List.mem_append_right _ List.mem_cons_self)))

end Groundwork.Site
