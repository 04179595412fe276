/-
Refused registrations.

A registration of two forms sets both forms before it looks for an entry of the link, so where the
entry is refused the forms stay replaced.  An entry on its own is looked for first, and a refusal
there changes nothing.  The two agree only where both forms were there already, which is always so
if every entry came with its forms and a type has a single form.

Main definitions:

* `Groundwork.KnowledgeBase.Provided` — knowledge bases that arise by any changes whatever, those
  that were refused included.

Main results:

* `Groundwork.KnowledgeBase.addForms_eq_error_iff` — refused is what has an entry, for any reason
  no other;
* `Groundwork.KnowledgeBase.addForms_refused` — **what a refused registration leaves behind, and
  when that is nothing**;
* `Groundwork.KnowledgeBase.Assembled.addForms_refused_eq` — nothing is left behind where every
  entry came with its forms and there is one form for every type.
-/
import Groundwork.Proofs.Knowledge.Building

set_option relaxedAutoImplicit false
set_option autoImplicit false

namespace Groundwork.KnowledgeBase

variable {kb : KnowledgeBase} {source target : Form} {l : Link} {e : LinkEntry} {f : Fault}

/-! ### Histories -/

/-- Knowledge bases that arise by entries, forms, registrations and merges, in any order.  What a
step refuses does not undo what it did. -/
inductive Provided : KnowledgeBase → Prop
  | empty : Provided {}
  | add {kb : KnowledgeBase} (l : Link) (e : LinkEntry) : Provided kb → Provided (kb.add l e).1
  | registerFactory {kb : KnowledgeBase} (t : TypeTag) (form : Form) :
      Provided kb → Provided (kb.registerFactory t form)
  | addForms {kb : KnowledgeBase} (source target : Form) (e : LinkEntry) :
      Provided kb → Provided (kb.addForms source target e).1
  | merge {kb other : KnowledgeBase} :
      Provided kb → Provided other → Provided (kb.merge other).1

/-! ### Who is refused -/

theorem add_eq_error_iff : (kb.add l e).2 = .error f ↔
    kb.hasEntry l = true ∧ f = .duplicateEntry l.source l.target := by
  unfold add hasEntry
  split
  case isTrue h => simp [h, eq_comm]
  case isFalse h => simp [h]

/-- An entry that is refused changes nothing. -/
theorem add_refused (h : (kb.add l e).2 = .error f) : (kb.add l e).1 = kb := by
  have hentry : kb.entries.contains l = true := (add_eq_error_iff.1 h).1
  rw [add, if_pos hentry]

/-- A registration is refused where there is an entry for the link already. -/
theorem addForms_eq_error_iff : (kb.addForms source target e).2 = .error f ↔
    kb.hasEntry ⟨source.tag, target.tag⟩ = true ∧ f = .duplicateEntry source.tag target.tag :=
  add_eq_error_iff

/-! ### What is left behind -/

/-- A refused registration leaves the entries alone. -/
theorem entries_addForms_refused (h : (kb.addForms source target e).2 = .error f) :
    (kb.addForms source target e).1.entries = kb.entries := by
  rw [addForms, add_refused h, registerFactory, registerFactory]

/-- A refused registration changes nothing if the forms that it sets are those that are there.  The
target is set last, so the form of the source counts only for a type of its own. -/
theorem addForms_refused_eq_iff (h : (kb.addForms source target e).2 = .error f) :
    (kb.addForms source target e).1 = kb ↔
      kb.factories.get? target.tag = some target ∧
        (source.tag = target.tag ∨ kb.factories.get? source.tag = some source) := by
  constructor
  case mp =>
      intro hsame
      have hforms := get?_factories_addForms kb source target e
      rw [hsame] at hforms
      refine ⟨by rw [hforms, if_pos rfl], ?_⟩
      by_cases htag : source.tag = target.tag
      · exact Or.inl htag
      · exact Or.inr (by rw [hforms, if_neg (Ne.symm htag), if_pos rfl])
  case mpr =>
      rintro ⟨htarget, hsource⟩
      refine ext_lookups (fun l => ?_) fun t => ?_
      · rw [ entry?, entry?, entries_addForms_refused h]
      · rw [get?_factories_addForms]
        split
        case isTrue ht => rw [← ht, htarget]
        case isFalse ht =>
            split
            case isTrue hs =>
                subst hs
                exact (hsource.resolve_left fun hst => ht hst.symm).symm
            case isFalse => rfl

/-- What can be made of every type tells the forms: a zero value knows its form. -/
theorem factories_eq_of_create {other : KnowledgeBase}
    (h : ∀ t, kb.create t = other.create t) : kb.factories = other.factories := by
  refine Table.ext_get? fun t => ?_
  have ht := h t
  unfold create form at ht
  cases hkb : kb.factories.get? t with
  | none =>
      cases hother : other.factories.get? t with
      | none => rfl
      | some form => rw [hkb, hother] at ht; cases ht
  | some form =>
      cases hother : other.factories.get? t with
      | none => rw [hkb, hother] at ht; cases ht
      | some form' =>
          rw [hkb, hother] at ht
          exact congrArg some (congrArg Resource.form (Except.ok.inj ht))

/-- A registration is refused where the link has an entry, and then the entries stay as they are
but both forms are replaced.  So the knowledge base is as before, and makes every type as before,
only if its own forms for the two types are those of the registration. -/
theorem addForms_refused (kb : KnowledgeBase) (source target : Form) (e : LinkEntry) (f : Fault)
    (h : (kb.addForms source target e).2 = .error f) :
    f = .duplicateEntry source.tag target.tag ∧
      (kb.addForms source target e).1.entries = kb.entries ∧
      (∀ t, (kb.addForms source target e).1.factories.get? t =
        if target.tag = t then some target
        else if source.tag = t then some source else kb.factories.get? t) ∧
      ((kb.addForms source target e).1 = kb ↔
        kb.factories.get? target.tag = some target ∧
          (source.tag = target.tag ∨ kb.factories.get? source.tag = some source)) ∧
      ((∀ t, KnowledgeBase.create (kb.addForms source target e).1 t = kb.create t) ↔
        (kb.addForms source target e).1 = kb) := by
  refine ⟨(addForms_eq_error_iff.1 h).2, entries_addForms_refused h,
    get?_factories_addForms kb source target e, addForms_refused_eq_iff h, fun hcreate => ?_,
    fun hsame t => by rw [hsame]⟩
  have hentries := entries_addForms_refused h
  have hforms := factories_eq_of_create hcreate
  exact ext_lookups (fun l => by rw [ entry?, entry?, hentries]) fun t => by rw [hforms]

/-! ### Fixed forms -/

/-- Two forms of types without a scope. -/
def plainForm (kind : String) : Form := { provider := "test", zero := kind }

/-- A knowledge base with an entry between two types and no forms. -/
def bare : KnowledgeBase := (({} : KnowledgeBase).add ⟨⟨"test:a"⟩, ⟨"test:b"⟩⟩ {}).1

theorem addForms_refused_bare :
    (bare.addForms (plainForm "a") (plainForm "b") {}).2 =
        .error (.duplicateEntry ⟨"test:a"⟩ ⟨"test:b"⟩) ∧
      (bare.addForms (plainForm "a") (plainForm "b") {}).1.entries = bare.entries ∧
      (bare.addForms (plainForm "a") (plainForm "b") {}).1 ≠ bare := by
  have hrefused : (bare.addForms (plainForm "a") (plainForm "b") {}).2 =
      .error (.duplicateEntry ⟨"test:a"⟩ ⟨"test:b"⟩) := rfl
  obtain ⟨-, hentries, -, hsame, -⟩ :=
    addForms_refused bare (plainForm "a") (plainForm "b") {} _ hrefused
  exact ⟨hrefused, hentries, fun h => absurd (hsame.1 h).1 (by decide)⟩

/-- Not every refused registration leaves the knowledge base as it was: a type that could not be
made can be made afterwards. -/
theorem not_forall_addForms_refused_eq :
    ¬ ∀ kb : KnowledgeBase, kb.Provided → ∀ (source target : Form) (e : LinkEntry),
      (kb.addForms source target e).2 = .error (.duplicateEntry source.tag target.tag) →
        (kb.addForms source target e).1.entries = kb.entries ∧
        (kb.addForms source target e).1.factories = kb.factories ∧
        ∀ t, KnowledgeBase.create (kb.addForms source target e).1 t = kb.create t := by
  intro hall
  have hbare : bare.Provided := Provided.empty.add _ _
  obtain ⟨-, -, hcreate⟩ := hall bare hbare (plainForm "a") (plainForm "b") {} rfl
  have hmissing : bare.create ⟨"test:a"⟩ = .error (.missingFactory ⟨"test:a"⟩) := rfl
  have hmade : KnowledgeBase.create (bare.addForms (plainForm "a") (plainForm "b") {}).1
      ⟨"test:a"⟩ = .ok (Resource.zero (plainForm "a")) := rfl
  rw [hcreate, hmissing] at hmade
  cases hmade

/-! ### One form for every type -/

/-- Where every entry came with its forms, and with the only ones that there are for its types, a
refused registration changes nothing. -/
theorem Assembled.addForms_refused_eq (hkb : kb.Assembled)
    (hsource : ∀ form, kb.factories.get? source.tag = some form → form = source)
    (htarget : ∀ form, kb.factories.get? target.tag = some form → form = target)
    (h : (kb.addForms source target e).2 = .error f) : (kb.addForms source target e).1 = kb := by
  obtain ⟨old, hold⟩ := Table.contains_iff.1 (addForms_eq_error_iff.1 h).1
  obtain ⟨form, hform⟩ := Table.contains_iff.1 (hkb.stocked.source_contains hold)
  obtain ⟨form', hform'⟩ := Table.contains_iff.1 (hkb.stocked.target_contains hold)
  refine (addForms_refused_eq_iff h).2 ⟨?_, Or.inr ?_⟩
  · rw [hform', htarget form' hform']
  · rw [hform, hsource form hform]

end Groundwork.KnowledgeBase
