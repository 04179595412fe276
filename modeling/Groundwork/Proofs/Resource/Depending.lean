/-
Adding one dependency.

The ends of a new dependency are filed before the test for cycles.  A resource that is not filed
yet has no dependencies, so it lies on no cycle that the new one could close.  If the dependency
is refused, both ends were filed before, and the whole site is as it was.

Main definitions:

* `Groundwork.Site.Joined` — one site is another with one dependency more, and nothing else.

Main results:

* `Groundwork.Site.depend_of_leads`, `Groundwork.Site.depend_of_not_leads` — the dependency that
  is refused, and the one that is not;

* `Groundwork.Site.Reachable.depend_atomic` — a dependency is refused exactly if it would close a
  cycle; a refused one changes nothing, and any other one is added to what is there.
-/
import Groundwork.Proofs.Digraph.Outline
import Groundwork.Proofs.Knowledge.History
import Groundwork.Proofs.Resource.Filing

set_option relaxedAutoImplicit false
set_option autoImplicit false

namespace Groundwork.Site

open Relation
open Groundwork.Digraph (Arc)

variable {s : Site} {a b : Handle}

/-! ### Filing both ends -/

theorem arcs_insert (s : Site) (h : Handle) : (s.insert h).1.graph.arcs = s.graph.arcs := by
  rw [insert]
  split <;> rfl

theorem observed_insert (s : Site) (h : Handle) : (s.insert h).1.observed = s.observed := by
  rw [insert]
  split <;> rfl

/-- A resource that is filed already stays, and no other one is touched. -/
theorem get?_insert (s : Site) (h : Handle) (x : String) :
    (s.insert h).1.graph.get? x =
      (s.graph.get? x).or (if x = s.key h then some h else none) := by
  rw [insert]
  split
  case h_1 stored hstored =>
      split
      case isTrue hx => rw [hx, hstored, Option.some_or]
      case isFalse => rw [Option.or_none]
  case h_2 hnone =>
      rw [graph_commit, Digraph.get?_insertVertex]
      by_cases hx : x = s.key h
      · rw [if_pos hx.symm, if_pos hx, hx, hnone, Option.none_or]
      · rw [if_neg (Ne.symm hx), if_neg hx, Option.or_none]

/-- The site with both ends of a dependency filed. -/
def insertEnds (s : Site) (a b : Handle) : Site := ((s.insert a).1.insert b).1

theorem store_insertEnds (s : Site) (a b : Handle) : (s.insertEnds a b).store = s.store := by
  rw [insertEnds, store_insert, store_insert]

theorem observed_insertEnds (s : Site) (a b : Handle) :
    (s.insertEnds a b).observed = s.observed := by
  rw [insertEnds, observed_insert, observed_insert]

theorem arcs_insertEnds (s : Site) (a b : Handle) :
    (s.insertEnds a b).graph.arcs = s.graph.arcs := by
  rw [insertEnds, arcs_insert, arcs_insert]

theorem adj_insertEnds (s : Site) (a b : Handle) : (s.insertEnds a b).graph.Adj = s.graph.Adj := by
  funext x y
  rw [insertEnds, adj_insert, adj_insert]

theorem properties?_insertEnds (s : Site) (a b : Handle) (x y : String) :
    (s.insertEnds a b).graph.properties? x y = s.graph.properties? x y := by
  rw [Digraph.properties?, Digraph.arc?, arcs_insertEnds, Digraph.properties?, Digraph.arc?]

theorem get?_insertEnds (s : Site) (a b : Handle) (x : String) :
    (s.insertEnds a b).graph.get? x =
      (s.graph.get? x).or
        (if x = s.key a then some a else if x = s.key b then some b else none) := by
  have hkey : (s.insert a).1.key b = s.key b := by rw [key, store_insert, key]
  rw [insertEnds, get?_insert, get?_insert, hkey, Option.or_assoc]
  split
  case isTrue hx => rw [Option.some_or]
  case isFalse => rw [Option.none_or]

theorem wellFormed_insertEnds (hg : s.graph.WellFormed) (a b : Handle) :
    (s.insertEnds a b).graph.WellFormed :=
  (edits_insert _ b).wellFormed ((edits_insert s a).wellFormed hg)

theorem contains_insertEnds (s : Site) (a b : Handle) {x : String}
    (hx : x = s.key a ∨ x = s.key b) : (s.insertEnds a b).graph.contains x = true := by
  rw [Digraph.contains_eq_isSome_get?, get?_insertEnds, Option.isSome_or, Bool.or_eq_true]
  right
  rcases hx with rfl | rfl
  · rw [if_pos rfl, Option.isSome_some]
  · rw [if_pos rfl]
    split <;> rfl

/-! ### Resources in their places -/

/-- What the graph has under the text `x`, if there is anything, is a resource with this text. -/
def InPlace (s : Site) (x : String) : Prop := ∀ h, s.graph.get? x = some h → s.key h = x

theorem Filed.inPlace (hs : s.Filed) (x : String) : s.InPlace x := fun h hx => (hs x h hx).2

/-- A new resource comes to its own place. -/
theorem InPlace.insert {x : String} (hx : s.InPlace x) (h : Handle) : (s.insert h).1.InPlace x := by
  intro k hk
  rw [key, store_insert]
  rw [get?_insert, Option.or_eq_some_iff] at hk
  rcases hk with hold | ⟨-, hnew⟩
  · exact hx k hold
  · split at hnew
    case isTrue heq =>
        cases hnew
        exact heq.symm
    case isFalse => cases hnew

theorem InPlace.depend {x : String} (hx : s.InPlace x) (a b : Handle) (p : Properties Payload) :
    (s.depend a b p).1.InPlace x := by
  rw [Site.depend]
  split
  case isTrue => exact hx
  case isFalse =>
      have hends := (hx.insert a).insert b
      rw [wire]
      split
      case isTrue => exact hends
      case isFalse =>
          intro k hk
          rw [graph_commit, Digraph.get?_connect] at hk
          exact hends k hk

/-! ### The two outcomes -/

/-- A dependency that would close a cycle is refused.  Its ends lead somewhere, so they are filed
already and filing them again does nothing. -/
theorem depend_of_leads (hg : s.graph.WellFormed) (hne : s.key a ≠ s.key b)
    (hleads : s.graph.Leads (s.key b) (s.key a)) (p : Properties Payload) :
    s.depend a b p = (s, .error (.wouldCycle (s.key a) (s.key b))) := by
  obtain ⟨hb, ha⟩ := hg.contains_of_reflTransGen hne.symm hleads.to_reflTransGen
  have hcycle : s.graph.createsCycle (s.key a) (s.key b) = true :=
    (Digraph.createsCycle_iff hg _ _).2 hleads.to_reflTransGen
  rw [depend, if_neg hne, insert_of_contains ha, insert_of_contains hb, wire, if_pos hcycle]

/-- A dependency that would close no cycle is added once its ends are filed. -/
theorem depend_of_not_leads (hg : s.graph.WellFormed) (hne : s.key a ≠ s.key b)
    (hleads : ¬ s.graph.Leads (s.key b) (s.key a)) (p : Properties Payload) :
    s.depend a b p =
      ((s.insertEnds a b).commit ((s.insertEnds a b).graph.connect (s.key a) (s.key b) p)
        ((s.insertEnds a b).graph.connectChanges (s.key a) (s.key b)), .ok ()) := by
  have hcycle : ¬ (s.insertEnds a b).graph.createsCycle (s.key a) (s.key b) = true := by
    rw [Digraph.createsCycle_iff (wellFormed_insertEnds hg a b), adj_insertEnds,
      reflTransGen_iff_eq_or_transGen]
    rintro (heq | hway)
    · exact hne heq
    · exact hleads hway
  rw [depend, if_neg hne]
  change (s.insertEnds a b).wire (s.key a) (s.key b) p = _
  rw [wire, if_neg hcycle]

/-! ### What an added dependency changes -/

/-- The site `t` is `s` with the dependency of `a` on `b` added. -/
structure Joined (s t : Site) (a b : Handle) (p : Properties Payload) : Prop where
  /-- No resource changes. -/
  store_eq : t.store = s.store
  /-- Changes are announced afterwards if they were before. -/
  observed_eq : t.observed = s.observed
  /-- Both ends are filed, every resource that was filed is still there, and no other one came. -/
  get?_eq : ∀ x, t.graph.get? x =
    (s.graph.get? x).or (if x = s.key a then some a else if x = s.key b then some b else none)
  /-- The dependency carries the new properties over those that it had. -/
  carries : ∃ q, t.graph.properties? (s.key a) (s.key b) = some q ∧
    q.data = p.data.or ((s.graph.properties? (s.key a) (s.key b)).getD {}).data ∧
    ∀ name, q.attributes.get? name = (p.attributes.get? name).or
      (((s.graph.properties? (s.key a) (s.key b)).getD {}).attributes.get? name)
  /-- The other dependencies are as they were, with their slots and in their order. -/
  others_eq : t.graph.arcs.filter (fun d => !d.joins (s.key a) (s.key b)) =
    s.graph.arcs.filter (fun d => !d.joins (s.key a) (s.key b))

theorem joined_of_not_leads (hg : s.graph.WellFormed) (hne : s.key a ≠ s.key b)
    (hleads : ¬ s.graph.Leads (s.key b) (s.key a)) (p : Properties Payload) :
    s.Joined (s.depend a b p).1 a b p := by
  have ha := contains_insertEnds s a b (Or.inl (Eq.refl (s.key a)))
  have hb := contains_insertEnds s a b (Or.inr (Eq.refl (s.key b)))
  rw [depend_of_not_leads hg hne hleads]
  refine ⟨store_insertEnds s a b, observed_insertEnds s a b, fun x => ?_, ?_, ?_⟩
  · rw [graph_commit, Digraph.get?_connect, get?_insertEnds]
  · rw [graph_commit, Digraph.properties?_connect p ha hb, if_pos ⟨rfl, rfl⟩, properties?_insertEnds]
    refine ⟨_, rfl, ?_⟩
    cases s.graph.properties? (s.key a) (s.key b) with
    | none => exact ⟨(Option.or_none).symm, fun name => (Option.or_none).symm⟩
    | some old => exact ⟨rfl, Properties.get?_attributes_merge old p⟩
  · rw [graph_commit, Digraph.filter_arcs_connect, arcs_insertEnds]

/-! ### All or nothing -/

namespace Reachable

/-- **A dependency is added as a whole or not at all.**  It is refused exactly if its ends differ
and its target already leads to its source; one that is there already never is.  A refused one
leaves the site and its journal as they were, and so does one of a resource on itself. -/
theorem depend_atomic (hs : s.Reachable) (a b : Handle) (p : Properties Payload) :
    (s.key a = s.key b → s.depend a b p = (s, .ok ())) ∧
      ((∃ f, (s.depend a b p).2 = .error f) ↔
        s.key a ≠ s.key b ∧ s.graph.Leads (s.key b) (s.key a)) ∧
      (∀ f, (s.depend a b p).2 = .error f →
        f = .wouldCycle (s.key a) (s.key b) ∧ (s.depend a b p).1 = s) ∧
      (s.graph.Adj (s.key a) (s.key b) → (s.depend a b p).2 = .ok ()) ∧
      (s.key a ≠ s.key b → (s.depend a b p).2 = .ok () → s.Joined (s.depend a b p).1 a b p) := by
  have hg := hs.wellFormed
  have hself (heq : s.key a = s.key b) : s.depend a b p = (s, .ok ()) := by rw [depend, if_pos heq]
  have hiff : (∃ f, (s.depend a b p).2 = .error f) ↔
      s.key a ≠ s.key b ∧ s.graph.Leads (s.key b) (s.key a) := by
    constructor
    · rintro ⟨f, hf⟩
      by_contra hnot
      by_cases heq : s.key a = s.key b
      · rw [hself heq] at hf
        cases hf
      · rw [depend_of_not_leads hg heq fun hleads => hnot ⟨heq, hleads⟩] at hf
        cases hf
    · rintro ⟨hne, hleads⟩
      exact ⟨_, congrArg Prod.snd (depend_of_leads hg hne hleads p)⟩
  refine ⟨hself, hiff, fun f hf => ?_, fun hadj => ?_, fun hne hok => ?_⟩
  · obtain ⟨hne, hleads⟩ := hiff.1 ⟨f, hf⟩
    rw [depend_of_leads hg hne hleads] at hf ⊢
    cases hf
    exact ⟨rfl, rfl⟩
  · -- a way back along an edge that is there would be a cycle
    have hleads : ¬ s.graph.Leads (s.key b) (s.key a) := fun hback =>
      hs.acyclic _ (TransGen.head hadj hback)
    rw [depend_of_not_leads hg (hs.acyclic.ne_of_adj hadj) hleads]
  · refine joined_of_not_leads hg hne (fun hleads => ?_) p
    rw [depend_of_leads hg hne hleads] at hok
    cases hok

/-- The last of three resources cannot depend on the first, but the first can depend on the
last. -/
theorem depend_atomic_cascade :
    cascade.Reachable ∧
      (cascade.depend ⟨2⟩ ⟨0⟩ {}).1 = cascade ∧
      cascade.Joined (cascade.depend ⟨0⟩ ⟨2⟩ {}).1 ⟨0⟩ ⟨2⟩ {} := by
  have hreach : cascade.Reachable :=
    ⟨_, rfl, ((Reaches.refl _).depend ⟨0⟩ ⟨1⟩ {}).depend ⟨1⟩ ⟨2⟩ {}⟩
  have hfirst : cascade.graph.Adj (cascade.key ⟨0⟩) (cascade.key ⟨1⟩) :=
    Digraph.hasEdge_iff.1 (by decide +kernel)
  have hsecond : cascade.graph.Adj (cascade.key ⟨1⟩) (cascade.key ⟨2⟩) :=
    Digraph.hasEdge_iff.1 (by decide +kernel)
  obtain ⟨-, hiff, hrefused, -, -⟩ := depend_atomic hreach ⟨2⟩ ⟨0⟩ {}
  obtain ⟨f, hf⟩ := hiff.2 ⟨by decide +kernel, (TransGen.single hfirst).tail hsecond⟩
  obtain ⟨-, -, -, -, hadded⟩ := depend_atomic hreach ⟨0⟩ ⟨2⟩ {}
  exact ⟨hreach, (hrefused f hf).2, hadded (by decide +kernel) rfl⟩

end Reachable

end Groundwork.Site
