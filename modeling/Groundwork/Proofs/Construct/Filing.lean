/-
Constructs and the vertices under which they are filed.

A construct graph files a construct under the text of its identity.  The name of a construct may
hold any characters, yet the text tells kind and name apart, so a vertex only ever holds constructs
of one kind and one name.

Main definitions:

* `Groundwork.ConstructGraph.Built` — the graphs that arise from the empty one.

Main results:

* `Groundwork.Construct.text_ident_eq_iff` — constructs with one text agree in kind and name;
* `Groundwork.ConstructGraph.Built.text_of_get?` — every construct is filed under its own text;
* `Groundwork.ConstructGraph.text_shared_iff` — **which identities share a vertex**: no two of
  constructs, and otherwise a scope without a name with a name without a scope.
-/
import Groundwork.Construct.Graph
import Groundwork.Proofs.Digraph.Adjacency
import Groundwork.Proofs.Ident.Text

set_option relaxedAutoImplicit false
set_option autoImplicit false

namespace Groundwork

/-! ### Texts of constructs -/

theorem Kind.name_injective : Function.Injective Kind.name := by
  intro k k' h
  exact Option.some_inj.1 (by rw [← ofName?_name k, h, ofName?_name])

namespace Construct

theorem separable_ident (c : Construct) : c.ident.Separable where
  provider := by
    change ':' ∉ Ident.abstractProvider.toList
    decide
  kind := by
    change ':' ∉ c.kind.name.toList
    cases c.kind with
    | store k => cases k <;> decide
    | _ => decide
  scope := by
    change ':' ∉ "".toList
    decide

/-- Identities of constructs have no scope, so none of them shadows another. -/
theorem not_shadows_ident (i : Ident) (c : Construct) : ¬ i.Shadows c.ident :=
  fun h => h.scope_ne rfl

theorem ident_eq_iff {c d : Construct} : c.ident = d.ident ↔ c.kind = d.kind ∧ c.name = d.name := by
  simp [ident, identOf, Kind.name_injective.eq_iff]

/-- Constructs with one text agree in kind and name. -/
theorem text_ident_eq_iff {c d : Construct} :
    c.ident.text = d.ident.text ↔ c.kind = d.kind ∧ c.name = d.name := by
  rw [Ident.text_eq_text_iff c.separable_ident d.separable_ident, ident_eq_iff,
    or_iff_left (not_or_intro (not_shadows_ident _ d) (not_shadows_ident _ c))]

end Construct

/-! ### Graphs of constructs -/

namespace ConstructGraph

/-- The construct graphs that arise from the empty one. -/
inductive Built : ConstructGraph → Prop
  | empty : Built {}
  | insert {g : ConstructGraph} (c : Construct) : Built g → Built (insert g c)
  | erase {g : ConstructGraph} (id : String) : Built g → Built (g.eraseVertex id)
  | connect {g : ConstructGraph} (s t : String) (p : Properties Unit) :
      Built g → Built (g.connect s t p)
  | disconnect {g g' : ConstructGraph} {s t : String} {p : Properties Unit} :
      Built g → g.disconnect s t = .ok (p, g') → Built g'
  | modify {g : ConstructGraph} (s t : String) (f : Properties Unit → Properties Unit) :
      Built g → Built (g.modifyProperties s t f)

/-- Every construct is filed under its own text. -/
theorem Built.text_of_get? {g : ConstructGraph} (h : Built g) {x : String} {c : Construct}
    (hc : g.get? x = some c) : c.ident.text = x := by
  induction h with
  | empty => cases hc
  | @insert g d _ ih =>
      rw [ConstructGraph.insert, Digraph.get?_insertVertex] at hc
      split at hc
      case isTrue heq =>
          cases hc
          exact heq
      case isFalse => exact ih hc
  | @erase g id _ ih =>
      rw [Digraph.get?_eraseVertex] at hc
      split at hc
      case isTrue => cases hc
      case isFalse => exact ih hc
  | connect s t p _ ih =>
      rw [Digraph.get?_connect] at hc
      exact ih hc
  | disconnect _ hok ih =>
      rw [Digraph.get?_of_disconnect hok] at hc
      exact ih hc
  | modify s t f _ ih => exact ih hc

/-- The vertex of a construct holds constructs of its kind and name only. -/
theorem Built.eq_of_find? {g : ConstructGraph} (h : Built g) {c d : Construct}
    (hd : g.find? c.ident = some d) : d.kind = c.kind ∧ d.name = c.name :=
  Construct.text_ident_eq_iff.1 (h.text_of_get? hd)

/-- Filing a construct leaves the vertices of constructs of other kinds and names alone. -/
theorem find?_insert_of_ne (g : ConstructGraph) {c d : Construct}
    (h : c.kind ≠ d.kind ∨ c.name ≠ d.name) :
    find? (insert g d) c.ident = find? g c.ident ∧ find? (insert g d) d.ident = some d := by
  have hne : d.ident.text ≠ c.ident.text := by
    rw [ne_eq, Construct.text_ident_eq_iff, not_and_or]
    exact h.imp Ne.symm Ne.symm
  constructor
  · rw [find?, insert, Digraph.get?_insertVertex, if_neg hne, find?]
  · rw [find?, insert, Digraph.get?_insertVertex, if_pos rfl]

/-- **Two identities share a vertex only if a scope without a name meets a name without a scope.**
What is read and what constructs are called has no colon before the name, so this covers all of
them; and constructs that differ in kind or name never share a vertex. -/
theorem text_shared_iff :
    (∀ a b : Ident, a.Separable → b.Separable →
      (a.text = b.text ↔ a = b ∨ a.Shadows b ∨ b.Shadows a)) ∧
    (∀ s i, Ident.parse s = .ok i → i.Separable) ∧ (∀ c : Construct, c.ident.Separable) ∧
    (∀ g, Built g → ∀ c d : Construct, find? g c.ident = some d →
      d.kind = c.kind ∧ d.name = c.name) ∧
    ∀ (g : ConstructGraph) (c d : Construct), c.kind ≠ d.kind ∨ c.name ≠ d.name →
      c.ident.text ≠ d.ident.text ∧ find? (insert g d) c.ident = find? g c.ident ∧
        find? (insert g d) d.ident = some d := by
  refine ⟨fun a b ha hb => Ident.text_eq_text_iff ha hb, fun s i => Ident.separable_of_parse,
    Construct.separable_ident, fun g hg c d => hg.eq_of_find?, fun g c d h => ⟨?_, ?_⟩⟩
  · rw [ne_eq, Construct.text_ident_eq_iff, not_and_or]
    exact h
  · exact find?_insert_of_ne g h

/-- A subnet of this name and a nameless subnet of this scope share a vertex; an entry point and a
unit never do, although the name of one looks like a scope and a name. -/
theorem text_shared_iff_examples :
    let named : Ident := { provider := "aws", kind := "subnet", name := "vpc" }
    let nameless : Ident := { provider := "aws", kind := "subnet", scope := "vpc" }
    let entry := Construct.ofKind .gateway "a:b"
    let unit := Construct.ofKind .executionUnit "a:b"
    (named.text = nameless.text ∧ named ≠ nameless) ∧ entry.ident.text ≠ unit.ident.text ∧
      find? (insert (insert {} entry) unit) entry.ident = some entry := by
  intro named nameless entry unit
  obtain ⟨htext, -, -, -, hapart⟩ := text_shared_iff
  have hnamed : named.Separable := ⟨by decide, by decide, by decide⟩
  have hnameless : nameless.Separable := ⟨by decide, by decide, by decide⟩
  have hshadow : named.Shadows nameless :=
    ⟨rfl, rfl, rfl, rfl, rfl, by decide, by decide⟩
  obtain ⟨hne, hkept, -⟩ := hapart (insert {} entry) entry unit (Or.inl (by decide))
  refine ⟨⟨(htext _ _ hnamed hnameless).2 (Or.inr (Or.inl hshadow)), by decide⟩, hne, ?_⟩
  rw [hkept]
  exact (hapart {} unit entry (Or.inl (by decide))).2.2

end ConstructGraph

end Groundwork
