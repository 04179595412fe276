/-
Which texts are read as identities, and what is said of the others.

A text with a colon is divided at its first colons, at most three of them, and in one way only.
What stands between the colons goes to the parts of an identity, and each part admits its own
characters: if all parts are admitted the text is read as that identity, and else it is refused
with a complaint about each part that is not.

Main definitions:

* `Groundwork.Ident.Part` — the parts of an identity, `Groundwork.Ident.Part.Admits` — what may be
  written there;
* `Groundwork.Ident.Divides` — a text divided at its first colons;
* `Groundwork.Ident.offending` — the parts of an identity that are not admitted;
* `Groundwork.Ident.fullText` — the text that writes all parts, empty ones too.

Main results:

* `Groundwork.Ident.existsUnique_divides` — a text with a colon is divided in one way;
* `Groundwork.Ident.problems_eq` — a complaint for each offending part, in their order;
* `Groundwork.Ident.parse_exact` — **what is read and what is refused**.
-/
import Groundwork.Proofs.Ident.Text

set_option relaxedAutoImplicit false
set_option autoImplicit false

namespace Groundwork.Ident

/-! ### Parts -/

/-- The parts of an identity. -/
inductive Part
  | provider
  | kind
  | scope
  | name
deriving DecidableEq

/-- What an identity has in a part. -/
def part (i : Ident) : Part → String
  | .provider => i.provider
  | .kind => i.kind
  | .scope => i.scope
  | .name => i.name

/-- An ASCII letter or digit, or an underscore. -/
def Plain (c : Char) : Prop :=
  ('A' ≤ c ∧ c ≤ 'Z') ∨ ('a' ≤ c ∧ c ≤ 'z') ∨ ('0' ≤ c ∧ c ≤ '9') ∨ c = '_'

instance : DecidablePred Plain := fun c =>
  inferInstanceAs (Decidable (('A' ≤ c ∧ c ≤ 'Z') ∨ ('a' ≤ c ∧ c ≤ 'z') ∨ _ ∨ c = '_'))

namespace Part

/-- All parts, in the order in which a text writes them. -/
def all : List Part := [.provider, .kind, .scope, .name]

/-- What a complaint calls the part. -/
def label : Part → String
  | .provider => "provider"
  | .kind => "type"
  | .scope => "namespace"
  | .name => "name"

/-- The characters that the part admits besides the plain ones. -/
def marks : Part → List Char
  | .provider => []
  | .kind => []
  | .scope => ['.', '/', '-', '[', ']']
  | .name => ['.', '/', '-', '[', ']', ':']

/-- What may be written in a part; only the provider has to be there. -/
def Admits (a : Part) (t : String) : Prop :=
  (a = .provider → t ≠ "") ∧ ∀ c ∈ t.toList, Plain c ∨ c ∈ a.marks

instance (a : Part) : DecidablePred a.Admits := fun t =>
  inferInstanceAs (Decidable (_ ∧ ∀ c ∈ t.toList, Plain c ∨ c ∈ a.marks))

end Part

/-- The parts of an identity that do not admit what the identity has there, in their order. -/
def offending (i : Ident) : List Part := Part.all.filter fun a => ¬ a.Admits (i.part a)

/-- What is said of an offending part. -/
def complaint (i : Ident) (a : Part) : String := "invalid " ++ a.label ++ " '" ++ i.part a ++ "'"

theorem isWordChar_iff_plain {c : Char} : isWordChar c = true ↔ Plain c := by
  have hupper : c.isUpper = decide ('A'.val ≤ c.val ∧ c.val ≤ 'Z'.val) := rfl
  have hlower : c.isLower = (decide ('a'.val ≤ c.val) && decide (c.val ≤ 'z'.val)) := rfl
  have hdigit : c.isDigit = (decide ('0'.val ≤ c.val) && decide (c.val ≤ '9'.val)) := rfl
  have halphanum : c.isAlphanum = (c.isUpper || c.isLower || c.isDigit) := rfl
  simp only [isWordChar, Plain, halphanum, hupper, hlower, hdigit, Bool.or_eq_true,
    Bool.and_eq_true, decide_eq_true_eq, beq_iff_eq, Char.le_def, or_assoc]

theorem isScopeChar_iff_marks {c : Char} :
    isScopeChar c = true ↔ Plain c ∨ c ∈ Part.scope.marks := by
  simp [isScopeChar, isWordChar_iff_plain, Part.marks, or_assoc]

theorem isNameChar_iff_marks {c : Char} : isNameChar c = true ↔ Plain c ∨ c ∈ Part.name.marks := by
  simp [isNameChar, isScopeChar, isWordChar_iff_plain, Part.marks, or_assoc]

/-! ### Complaints -/

theorem offending_eq_nil_iff {i : Ident} : i.offending = [] ↔ ∀ a : Part, a.Admits (i.part a) := by
  have hall : ∀ a : Part, a ∈ Part.all := by
    intro a
    cases a <;> decide
  simp [offending, List.filter_eq_nil_iff, hall]

/-- The problems of an identity are a complaint for each offending part. -/
theorem problems_eq (i : Ident) : i.problems = i.offending.map i.complaint := by
  have hprovider : (i.provider.isEmpty || !i.provider.toList.all isWordChar) = true ↔
      ¬ Part.provider.Admits (i.part .provider) := by
    simp [Part.Admits, part, Part.marks, isWordChar_iff_plain, or_iff_not_imp_left]
  have hkind : (!i.kind.toList.all isWordChar) = true ↔ ¬ Part.kind.Admits (i.part .kind) := by
    simp [Part.Admits, part, Part.marks, isWordChar_iff_plain]
  have hscope : (!i.scope.toList.all isScopeChar) = true ↔
      ¬ Part.scope.Admits (i.part .scope) := by
    simp [Part.Admits, part, isScopeChar_iff_marks]
  have hname : (!i.name.toList.all isNameChar) = true ↔ ¬ Part.name.Admits (i.part .name) := by
    simp [Part.Admits, part, isNameChar_iff_marks]
  simp only [problems, hprovider, hkind, hscope, hname, offending, Part.all, List.filter_cons,
    List.filter_nil, decide_eq_true_eq]
  split_ifs <;> rfl

/-- An identity is well spelled if every part admits what it has there. -/
theorem wellSpelled_iff {i : Ident} : i.WellSpelled ↔ ∀ a : Part, a.Admits (i.part a) := by
  rw [← problems_eq_nil_iff, problems_eq, List.map_eq_nil_iff, offending_eq_nil_iff]

/-- An identity that is refused is refused with a complaint for each offending part. -/
theorem validate_eq_error_iff {i : Ident} {s : String} {f : Fault} :
    i.validate s = .error f ↔
      (¬ ∀ a : Part, a.Admits (i.part a)) ∧
        f = .invalidId s ("; ".intercalate (i.offending.map i.complaint)) := by
  rw [validate, problems_eq, ← offending_eq_nil_iff]
  split
  case h_1 heq => simp [List.map_eq_nil_iff.1 heq]
  case h_2 hne =>
      have hsome : i.offending ≠ [] := fun h => hne (List.map_eq_nil_iff.2 h)
      exact ⟨fun h => ⟨hsome, (Except.error.inj h).symm⟩, fun h => congrArg Except.error h.2.symm⟩

/-! ### Texts divided at their first colons -/

/-- A text is divided at its first colons, at most three of them, into the parts of an identity.
A text with two colons has no scope, and only the name may hold colons that are left over. -/
inductive Divides : String → Ident → Prop
  | two {p k : String} : ':' ∉ p.toList → ':' ∉ k.toList →
      Divides (p ++ ":" ++ k) { provider := p, kind := k }
  | three {p k n : String} : ':' ∉ p.toList → ':' ∉ k.toList → ':' ∉ n.toList →
      Divides (p ++ ":" ++ k ++ ":" ++ n) { provider := p, kind := k, name := n }
  | four {p k s n : String} : ':' ∉ p.toList → ':' ∉ k.toList → ':' ∉ s.toList →
      Divides (p ++ ":" ++ k ++ ":" ++ s ++ ":" ++ n)
        { provider := p, kind := k, scope := s, name := n }

/-- The segments of a divided text, and which parts they are. -/
theorem Divides.cut_cases {s : String} {i : Ident} (h : Divides s i) :
    ((cut 3 s.toList).map String.ofList = [i.provider, i.kind] ∧
      i = { provider := i.provider, kind := i.kind }) ∨
    ((cut 3 s.toList).map String.ofList = [i.provider, i.kind, i.name] ∧
      i = { provider := i.provider, kind := i.kind, name := i.name }) ∨
    (cut 3 s.toList).map String.ofList = [i.provider, i.kind, i.scope, i.name] := by
  cases h with
  | two hp hk =>
      refine Or.inl ⟨?_, rfl⟩
      simp [cut_append_cons, cut_of_notMem, hp, hk]
  | three hp hk hn =>
      refine Or.inr (Or.inl ⟨?_, rfl⟩)
      simp [cut_append_cons, cut_of_notMem, hp, hk, hn]
  | four hp hk hs =>
      refine Or.inr (Or.inr ?_)
      simp [cut_append_cons, hp, hk, hs]

/-- A text is divided in one way only. -/
theorem Divides.unique {s : String} {i j : Ident} (hi : Divides s i) (hj : Divides s j) :
    i = j := by
  obtain ⟨ci, ei⟩ | ⟨ci, ei⟩ | ci := hi.cut_cases <;>
  obtain ⟨cj, ej⟩ | ⟨cj, ej⟩ | cj := hj.cut_cases <;>
  simp only [ci, List.cons.injEq, and_true, reduceCtorEq, and_false] at cj
  · rw [ei, ej, cj.1, cj.2]
  · rw [ei, ej, cj.1, cj.2.1, cj.2.2]
  · exact ext_parts (by simp [parts, cj])

/-- A divided text is read as the identity of its parts, if these are admitted. -/
theorem Divides.parse_eq {s : String} {i : Ident} (h : Divides s i) : parse s = i.validate s := by
  obtain ⟨hcut, heq⟩ | ⟨hcut, heq⟩ | hcut := h.cut_cases
  · rw [parse_of_cut_two hcut, ← heq]
  · rw [parse_of_cut_three hcut, ← heq]
  · rw [parse_of_cut_four hcut]

/-- What stands before the first colon of a text, and what stands behind it. -/
theorem exists_eq_append_colon {s : String} (h : ':' ∈ s.toList) :
    ∃ p r : String, s = p ++ ":" ++ r ∧ ':' ∉ p.toList := by
  obtain ⟨p, r, heq, hp⟩ := List.eq_append_cons_of_mem h
  refine ⟨String.ofList p, String.ofList r, ?_, by simpa using hp⟩
  rw [← String.toList_inj, heq]
  simp

/-- A text can be divided if it has a colon. -/
theorem exists_divides {s : String} (h : ':' ∈ s.toList) : ∃ i, Divides s i := by
  obtain ⟨p, r, rfl, hp⟩ := exists_eq_append_colon h
  by_cases hr : ':' ∈ r.toList
  · obtain ⟨k, r, rfl, hk⟩ := exists_eq_append_colon hr
    by_cases hr : ':' ∈ r.toList
    · obtain ⟨c, n, rfl, hc⟩ := exists_eq_append_colon hr
      exact ⟨_, by simpa only [String.append_assoc] using Divides.four hp hk hc⟩
    · exact ⟨_, by simpa only [String.append_assoc] using Divides.three hp hk hr⟩
  · exact ⟨_, Divides.two hp hr⟩

theorem Divides.colon_mem {s : String} {i : Ident} (h : Divides s i) : ':' ∈ s.toList := by
  cases h <;> simp

/-- The texts with a colon are divided in exactly one way, and no others. -/
theorem existsUnique_divides {s : String} : (∃! i, Divides s i) ↔ ':' ∈ s.toList := by
  constructor
  · rintro ⟨i, hi, -⟩
    exact hi.colon_mem
  · intro h
    obtain ⟨i, hi⟩ := exists_divides h
    exact ⟨i, hi, fun j hj => hj.unique hi⟩

/-! ### What is read and what is refused -/

/-- Without a colon, only the empty text is read. -/
theorem parse_of_notMem {s : String} (h : ':' ∉ s.toList) :
    parse s = if s = "" then .ok {}
      else .error (.invalidId s "must have trailing ':' for provider-only ID") := by
  by_cases hs : s = ""
  · subst hs
    rfl
  · have hcut : (cut 3 s.toList).map String.ofList = [s] := by
      simp [cut_of_notMem h]
    rw [parse, hcut, if_neg hs]
    split <;> grind

/-- The text that writes all parts of an identity, empty ones too. -/
def fullText (i : Ident) : String :=
  i.provider ++ ":" ++ i.kind ++ ":" ++ i.scope ++ ":" ++ i.name

theorem Separable.divides_fullText {i : Ident} (h : i.Separable) : Divides i.fullText i :=
  .four h.provider h.kind h.scope

theorem parse_eq_ok_iff {s : String} {i : Ident} :
    parse s = .ok i ↔
      (s = "" ∧ i = {}) ∨ (Divides s i ∧ ∀ a : Part, a.Admits (i.part a)) := by
  by_cases hcolon : ':' ∈ s.toList
  · obtain ⟨j, hj⟩ := exists_divides hcolon
    have hne : s ≠ "" := by
      rintro rfl
      exact absurd hcolon List.not_mem_nil
    rw [hj.parse_eq, validate_eq_ok_iff, ← wellSpelled_iff]
    constructor
    · rintro ⟨hspelled, rfl⟩
      exact Or.inr ⟨hj, hspelled⟩
    · rintro (⟨hs, -⟩ | ⟨hi, hspelled⟩)
      · exact absurd hs hne
      · obtain rfl := hi.unique hj
        exact ⟨hspelled, rfl⟩
  · have hno : ¬ Divides s i := fun h => hcolon h.colon_mem
    rw [parse_of_notMem hcolon]
    by_cases hs : s = ""
    · subst hs
      rw [if_pos rfl, Except.ok.injEq, eq_comm]
      simp [hno]
    · simp [hs, hno]

theorem parse_eq_error_iff {s : String} {f : Fault} :
    parse s = .error f ↔
      (∃ i, Divides s i ∧ (¬ ∀ a : Part, a.Admits (i.part a)) ∧
        f = .invalidId s ("; ".intercalate (i.offending.map i.complaint))) ∨
      (':' ∉ s.toList ∧ s ≠ "" ∧
        f = .invalidId s "must have trailing ':' for provider-only ID") := by
  by_cases hcolon : ':' ∈ s.toList
  · obtain ⟨j, hj⟩ := exists_divides hcolon
    rw [hj.parse_eq, validate_eq_error_iff]
    constructor
    · exact fun h => Or.inl ⟨j, hj, h⟩
    · rintro (⟨i, hi, h⟩ | ⟨hno, -⟩)
      · exact hi.unique hj ▸ h
      · exact absurd hcolon hno
  · have hno : ∀ i, ¬ Divides s i := fun i h => hcolon h.colon_mem
    rw [parse_of_notMem hcolon]
    by_cases hs : s = ""
    · subst hs
      simp [hno]
    · rw [if_neg hs, Except.error.injEq, eq_comm]
      simp [hs, hcolon, hno]

/-- The well spelled identities are those that their full text is read as. -/
theorem parse_fullText_eq_ok_iff {i : Ident} :
    parse i.fullText = .ok i ↔ ∀ a : Part, a.Admits (i.part a) := by
  constructor
  · intro h
    obtain ⟨hempty, -⟩ | ⟨-, hadmits⟩ := parse_eq_ok_iff.1 h
    · have hlength := congrArg String.length hempty
      simp [fullText] at hlength
    · exact hadmits
  · intro h
    have hseparable : i.Separable := (wellSpelled_iff.2 h).separable
    exact parse_eq_ok_iff.2 (Or.inr ⟨hseparable.divides_fullText, h⟩)

/-- What is read is the identity without parts, or any that is well spelled. -/
theorem exists_parse_eq_ok_iff {i : Ident} :
    (∃ s, parse s = .ok i) ↔ i = {} ∨ ∀ a : Part, a.Admits (i.part a) := by
  constructor
  · rintro ⟨s, h⟩
    exact (parse_eq_ok_iff.1 h).imp And.right And.right
  · rintro (rfl | h)
    · exact ⟨"", rfl⟩
    · exact ⟨i.fullText, parse_fullText_eq_ok_iff.2 h⟩

/-- **What is read and what is refused.**  A text is read if it is empty, or if its division at the
first colons gives each part what the part admits, and then as these parts.  What can be read is
the identity without parts and every well spelled one, the latter from its full text.  A text with
a colon has one division, and if it is refused, the reason names exactly the parts of the division
that are not admitted, in their order. -/
theorem parse_exact :
    (∀ s i, parse s = .ok i ↔
      (s = "" ∧ i = {}) ∨ (Divides s i ∧ ∀ a : Part, a.Admits (i.part a))) ∧
    (∀ i, (∃ s, parse s = .ok i) ↔ i = {} ∨ ∀ a : Part, a.Admits (i.part a)) ∧
    (∀ i, parse i.fullText = .ok i ↔ ∀ a : Part, a.Admits (i.part a)) ∧
    (∀ s, (∃! i, Divides s i) ↔ ':' ∈ s.toList) ∧
    (∀ s f, parse s = .error f ↔
      (∃ i, Divides s i ∧ (¬ ∀ a : Part, a.Admits (i.part a)) ∧
        f = .invalidId s ("; ".intercalate (i.offending.map i.complaint))) ∨
      (':' ∉ s.toList ∧ s ≠ "" ∧
        f = .invalidId s "must have trailing ':' for provider-only ID")) :=
  ⟨fun _ _ => parse_eq_ok_iff, fun _ => exists_parse_eq_ok_iff, fun _ => parse_fullText_eq_ok_iff,
    fun _ => existsUnique_divides, fun _ _ => parse_eq_error_iff⟩

example : parse "aws!:lambda function:x" = .error (.invalidId "aws!:lambda function:x"
    "invalid provider 'aws!'; invalid type 'lambda function'") := by
  rfl

end Groundwork.Ident
