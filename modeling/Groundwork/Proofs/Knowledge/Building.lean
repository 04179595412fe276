/-
How knowledge bases are built.

A knowledge base is two tables, of entries and of forms, which every change touches separately: a
registration of two forms replaces the forms and may refuse the entry, and a merge keeps whatever
is there and goes on after an entry was refused.  Each change is described by the lookups after it.

Main definitions:

* `Groundwork.KnowledgeBase.Stocked` — every type of an entry is made from a form of this type;
* `Groundwork.KnowledgeBase.Assembled` — knowledge bases that arise by registrations of forms and by
  merges of such knowledge bases, whatever was refused on the way.

Main results:

* `Groundwork.KnowledgeBase.ext_lookups` — knowledge bases with the same lookups are the same;
* `Groundwork.KnowledgeBase.entry?_addForms`, `Groundwork.KnowledgeBase.get?_factories_addForms` —
  lookups after a registration;
* `Groundwork.KnowledgeBase.entry?_merge`, `Groundwork.KnowledgeBase.get?_factories_merge` — lookups
  after a merge;
* `Groundwork.KnowledgeBase.Stocked.addForms`, `Groundwork.KnowledgeBase.Stocked.merge` — both
  changes keep a knowledge base stocked;
* `Groundwork.KnowledgeBase.Assembled.stocked` — what arises by these changes is stocked.
-/
import Groundwork.Proofs.Knowledge.Chains

set_option relaxedAutoImplicit false
set_option autoImplicit false

namespace Groundwork.KnowledgeBase

/-! ### Lookups -/

/-- Knowledge bases with the same lookups are the same. -/
theorem ext_lookups {kb other : KnowledgeBase} (hentries : ∀ l, kb.entry? l = other.entry? l)
    (hforms : ∀ t, kb.factories.get? t = other.factories.get? t) : kb = other := by
  have hentries' : kb.entries = other.entries := Table.ext_get? hentries
  have hforms' : kb.factories = other.factories := Table.ext_get? hforms
  cases kb
  cases other
  cases hentries'
  cases hforms'
  rfl

/-! ### One entry -/

@[simp] theorem factories_add (kb : KnowledgeBase) (l : Link) (e : LinkEntry) :
    (kb.add l e).1.factories = kb.factories := by
  unfold add
  split <;> rfl

/-- An entry is kept if there is one, and else the new one is taken. -/
theorem entries_add (kb : KnowledgeBase) (l : Link) (e : LinkEntry) :
    (kb.add l e).1.entries = kb.entries.insertIfNew l e := by
  unfold add Table.insertIfNew
  split <;> rfl

/-! ### Registrations -/

section AddForms

variable (kb : KnowledgeBase) (source target : Form) (e : LinkEntry)

/-- Both forms are there afterwards, also where the entry is refused. -/
theorem get?_factories_addForms (t : TypeTag) :
    (kb.addForms source target e).1.factories.get? t =
      if target.tag = t then some target
      else if source.tag = t then some source else kb.factories.get? t := by
  rw [KnowledgeBase.addForms, factories_add, registerFactory, registerFactory, Table.get?_insert,
    Table.get?_insert]

/-- The entry is there afterwards unless there was another one. -/
theorem entry?_addForms (l : Link) :
    KnowledgeBase.entry? (kb.addForms source target e).1 l =
      if ⟨source.tag, target.tag⟩ = l then kb.entry? l <|> some e else kb.entry? l := by
  unfold entry?
  rw [KnowledgeBase.addForms, entries_add, Table.get?_insertIfNew]
  change (kb.entry? l).or _ = _
  split
  case isTrue => exact Option.or_eq_orElse
  case isFalse => exact Option.or_none

/-- What is true of all entries stays so if it is true of the new one. -/
theorem forall_entry_addForms {P : LinkEntry → Prop} (hkb : ∀ l e, kb.entry? l = some e → P e)
    (he : P e) (l : Link) (e' : LinkEntry)
    (he' : KnowledgeBase.entry? (kb.addForms source target e).1 l = some e') : P e' := by
  rw [entry?_addForms] at he'
  split at he'
  case isTrue =>
      cases hold : kb.entry? l with
      | none =>
          rw [hold] at he'
          cases he'
          exact he
      | some old =>
          rw [hold] at he'
          cases he'
          exact hkb l _ hold
  case isFalse => exact hkb l e' he'

end AddForms

/-! ### Merges -/

section Merge

/-- Adding entries in turn, with a report of what is refused. -/
theorem foldl_add (l : List (Link × LinkEntry)) (kb : KnowledgeBase) (faults : Faults) :
    let r := l.foldl (fun (r : KnowledgeBase × Faults) e =>
      ((r.1.add e.1 e.2).1, r.2.pushResult (r.1.add e.1 e.2).2)) (kb, faults)
    r.1.entries = l.foldl (fun t e => t.insertIfNew e.1 e.2) kb.entries ∧
      r.1.factories = kb.factories := by
  induction l generalizing kb faults with
  | nil => exact ⟨rfl, rfl⟩
  | cons e l ih =>
      obtain ⟨hentries, hfactories⟩ := ih (kb.add e.1 e.2).1 (faults.pushResult (kb.add e.1 e.2).2)
      rw [entries_add] at hentries
      rw [factories_add] at hfactories
      exact ⟨hentries, hfactories⟩

variable (kb other : KnowledgeBase)

/-- What is there stays, and the entries of the other knowledge base are added beside it. -/
theorem entry?_merge (l : Link) :
    KnowledgeBase.entry? (kb.merge other).1 l = (kb.entry? l).or (other.entry? l) := by
  have hfold := (foldl_add other.entries.toList kb {}).1
  unfold entry?
  rw [← Table.get?_foldl_insertIfNew_toList, ← hfold]
  rfl

/-- What is there stays, and the forms of the other knowledge base are added beside it. -/
theorem get?_factories_merge (t : TypeTag) :
    (kb.merge other).1.factories.get? t = (kb.factories.get? t).or (other.factories.get? t) := by
  have hfold := (foldl_add other.entries.toList kb {}).2
  rw [← Table.get?_foldl_insertIfNew_toList, ← hfold]
  rfl

end Merge

/-! ### Stocked knowledge bases -/

/-- Every type of an entry is made from a form of this type. -/
structure Stocked (kb : KnowledgeBase) : Prop where
  /-- A type is made from a form of this type. -/
  tag_of_get? : ∀ {t : TypeTag} {f : Form}, kb.factories.get? t = some f → f.tag = t
  /-- The type at the start of an entry has a form. -/
  source_contains : ∀ {l : Link} {e : LinkEntry}, kb.entry? l = some e →
    kb.factories.contains l.source = true
  /-- The type at the end of an entry has a form. -/
  target_contains : ∀ {l : Link} {e : LinkEntry}, kb.entry? l = some e →
    kb.factories.contains l.target = true

namespace Stocked

variable {kb other : KnowledgeBase}

theorem empty : Stocked {} where
  tag_of_get? h := by cases h
  source_contains h := by cases h
  target_contains h := by cases h

/-- A registration brings the forms of its own types, and replaces a form only by one of the same
type. -/
theorem addForms (h : kb.Stocked) (source target : Form) (e : LinkEntry) :
    (kb.addForms source target e).1.Stocked := by
  have hform : ∀ t, t = source.tag ∨ t = target.tag ∨ kb.factories.contains t = true →
      (kb.addForms source target e).1.factories.contains t = true := by
    intro t ht
    rw [Table.contains_eq_isSome, get?_factories_addForms]
    split
    · rfl
    · split
      · rfl
      · rw [← Table.contains_eq_isSome]
        grind
  have hlink : ∀ l e', KnowledgeBase.entry? (kb.addForms source target e).1 l = some e' →
      l = ⟨source.tag, target.tag⟩ ∨ ∃ e'', kb.entry? l = some e'' := by
    intro l e' he'
    rw [entry?_addForms] at he'
    split at he'
    case isTrue heq => exact Or.inl heq.symm
    case isFalse => exact Or.inr ⟨e', he'⟩
  constructor
  case tag_of_get? =>
      intro t f hf
      rw [get?_factories_addForms] at hf
      have hold := h.tag_of_get? (t := t) (f := f)
      grind
  case source_contains =>
      intro l e' he'
      refine hform l.source ?_
      rcases hlink l e' he' with rfl | ⟨e'', he''⟩
      · exact Or.inl rfl
      · exact Or.inr (Or.inr (h.source_contains he''))
  case target_contains =>
      intro l e' he'
      refine hform l.target ?_
      rcases hlink l e' he' with rfl | ⟨e'', he''⟩
      · exact Or.inr (Or.inl rfl)
      · exact Or.inr (Or.inr (h.target_contains he''))

/-- A merge brings no entry without the forms of its types. -/
theorem merge (h : kb.Stocked) (h' : other.Stocked) : (kb.merge other).1.Stocked := by
  have hform : ∀ t, kb.factories.contains t = true ∨ other.factories.contains t = true →
      (kb.merge other).1.factories.contains t = true := by
    intro t ht
    rw [Table.contains_eq_isSome, Table.contains_eq_isSome, ← Bool.or_eq_true] at ht
    rw [Table.contains_eq_isSome, get?_factories_merge, Option.isSome_or]
    exact ht
  constructor
  case tag_of_get? =>
      intro t f hf
      rw [get?_factories_merge, Option.or_eq_some_iff] at hf
      rcases hf with hf | ⟨-, hf⟩
      · exact h.tag_of_get? hf
      · exact h'.tag_of_get? hf
  case source_contains =>
      intro l e he
      rw [entry?_merge, Option.or_eq_some_iff] at he
      rcases he with he | ⟨-, he⟩
      · exact hform _ (Or.inl (h.source_contains he))
      · exact hform _ (Or.inr (h'.source_contains he))
  case target_contains =>
      intro l e he
      rw [entry?_merge, Option.or_eq_some_iff] at he
      rcases he with he | ⟨-, he⟩
      · exact hform _ (Or.inl (h.target_contains he))
      · exact hform _ (Or.inr (h'.target_contains he))

/-- The zero value of a type that has a form has this type. -/
theorem tag_blank (h : kb.Stocked) {t : TypeTag} (ht : kb.factories.contains t = true) :
    (kb.blank t).ident.tag = t := by
  obtain ⟨f, hf⟩ := Table.contains_iff.1 ht
  rw [blank, hf]
  exact h.tag_of_get? hf

end Stocked

/-! ### Histories -/

/-- Knowledge bases that arise by registrations of forms and by merges of such knowledge bases.
What a step refuses does not undo what it did. -/
inductive Assembled : KnowledgeBase → Prop
  | empty : Assembled {}
  | addForms {kb : KnowledgeBase} (source target : Form) (e : LinkEntry) :
      Assembled kb → Assembled (kb.addForms source target e).1
  | merge {kb other : KnowledgeBase} :
      Assembled kb → Assembled other → Assembled (kb.merge other).1

theorem Assembled.stocked {kb : KnowledgeBase} (h : kb.Assembled) : kb.Stocked := by
  induction h with
  | empty => exact Stocked.empty
  | addForms source target e _ ih => exact ih.addForms source target e
  | merge _ _ ih ih' => exact ih.merge ih'

end Groundwork.KnowledgeBase
