/-
The text of an identity, and reading it back.

The text of an identity joins its parts by colons and leaves out parts that are empty.  As long as
provider, kind and scope hold no colon, cutting the text at its first three colons gives back the
parts that were written, so a text tells everything about an identity but which part was left out.

Main definitions:

* `Groundwork.Ident.Separable` — provider, kind and scope hold no colon;
* `Groundwork.Ident.WellSpelled` — every part consists of the characters that it may have;
* `Groundwork.Ident.segments` — the parts that the text of an identity shows;
* `Groundwork.Ident.unscoped` — the identity with its scope in the place of a missing name;
* `Groundwork.Ident.recopy` — reading a text and writing what was read, any number of times.

Main results:

* `Groundwork.Ident.cut_text` — cutting a text gives the segments back;
* `Groundwork.Ident.text_eq_text_iff` — which identities have the same text;
* `Groundwork.Ident.WellSpelled.parse_text`, `Groundwork.Ident.parse_text_of_parse` — a text reads
  back as the identity, or as its unscoped form;
* `Groundwork.Ident.parse_text_eq_iff` — **what is read survives its text, unless it has a scope
  and no name**;
* `Groundwork.Ident.parse_text_settles` — **the text of what is read survives always**, however
  often it is read and written.
-/
import Groundwork.Ident
import Mathlib.Data.List.TakeWhile

set_option relaxedAutoImplicit false
set_option autoImplicit false

namespace Groundwork.Ident

/-! ### Cutting at colons -/

@[simp] theorem cut_zero (cs : List Char) : cut 0 cs = [cs] := rfl

theorem cut_of_notMem {n : ℕ} {cs : List Char} (h : ':' ∉ cs) : cut n cs = [cs] := by
  cases n with
  | zero => rfl
  | succ n =>
      have hdrop : cs.dropWhile (· != ':') = [] := by
        rw [List.dropWhile_eq_nil_iff]
        intro c hc
        simpa using fun heq : c = ':' => h (heq ▸ hc)
      rw [cut, hdrop]

theorem cut_append_cons {n : ℕ} {p : List Char} (h : ':' ∉ p) (r : List Char) :
    cut (n + 1) (p ++ ':' :: r) = p :: cut n r := by
  have hp : ∀ c ∈ p, (c != ':') = true := by
    intro c hc
    simpa using fun heq : c = ':' => h (heq ▸ hc)
  have hdrop : (p ++ ':' :: r).dropWhile (· != ':') = ':' :: r := by
    rw [List.dropWhile_append_of_pos hp]
    rfl
  have htake : (p ++ ':' :: r).takeWhile (· != ':') = p := by
    rw [List.takeWhile_append_of_pos hp]
    simp
  rw [cut, hdrop, htake]

/-- Parts joined by colons are cut apart again if only a part beyond the cuts holds a colon. -/
theorem cut_intercalate {n : ℕ} {l : List (List Char)} (hne : l ≠ []) (hlen : l.length ≤ n + 1)
    (h : ∀ p ∈ l.take n, ':' ∉ p) : cut n ([':'].intercalate l) = l := by
  induction l generalizing n with
  | nil => exact absurd rfl hne
  | cons p l ih =>
      cases n with
      | zero =>
          have hl : l = [] := List.length_eq_zero_iff.1 (by simpa using hlen)
          simp [hl, cut, List.intercalate]
      | succ n =>
          have hp : ':' ∉ p := h p (by simp)
          cases l with
          | nil => simpa [List.intercalate] using cut_of_notMem hp
          | cons q l =>
              have hrest := ih (n := n) (by simp) (by simpa using hlen)
                fun r hr => h r (List.mem_cons_of_mem p hr)
              rw [List.intercalate_cons_cons, List.append_assoc, List.singleton_append,
                cut_append_cons hp, hrest]

/-! ### Segments -/

/-- Provider, kind and scope hold no colon. -/
structure Separable (i : Ident) : Prop where
  provider : ':' ∉ i.provider.toList
  kind : ':' ∉ i.kind.toList
  scope : ':' ∉ i.scope.toList

/-- The parts that the text of an identity shows. -/
def segments (i : Ident) : List String :=
  if i = {} then [""]
  else
    [i.provider, i.kind] ++ (if i.scope ≠ "" ∨ ':' ∈ i.name.toList then [i.scope] else []) ++
      (if i.name ≠ "" then [i.name] else [])

theorem isZero_iff {i : Ident} : i.isZero = true ↔ i = {} := by
  obtain ⟨provider, kind, scope, name⟩ := i
  simp [isZero, and_assoc]

/-- The segments of an identity by what there is of scope and name. -/
theorem segments_cases {i : Ident} (h : i ≠ {}) :
    (i.scope = "" ∧ i.name = "" ∧ i.segments = [i.provider, i.kind]) ∨
    (i.scope = "" ∧ i.name ≠ "" ∧ ':' ∉ i.name.toList ∧
      i.segments = [i.provider, i.kind, i.name]) ∨
    (i.scope ≠ "" ∧ i.name = "" ∧ i.segments = [i.provider, i.kind, i.scope]) ∨
    ((i.scope ≠ "" ∨ ':' ∈ i.name.toList) ∧ i.name ≠ "" ∧
      i.segments = [i.provider, i.kind, i.scope, i.name]) := by
  by_cases hname : i.name = ""
  · by_cases hscope : i.scope = "" <;> simp [segments, h, hname, hscope]
  · by_cases hscope : i.scope = "" <;> by_cases hcolon : ':' ∈ i.name.toList <;>
      simp [segments, h, hname, hscope, hcolon]

/-- The text of an identity is its segments, joined by colons. -/
theorem toList_text (i : Ident) :
    i.text.toList = [':'].intercalate (i.segments.map String.toList) := by
  by_cases h : i = {}
  · subst h
    rfl
  · have hzero : i.isZero = false := by rwa [← Bool.not_eq_true, isZero_iff]
    by_cases hname : i.name = ""
    · by_cases hscope : i.scope = "" <;>
        simp [text, segments, h, hzero, hname, hscope, List.intercalate]
    · by_cases hscope : i.scope = "" <;> by_cases hcolon : ':' ∈ i.name.toList <;>
        simp [text, segments, h, hzero, hname, hscope, hcolon, List.intercalate]

/-- Cutting the text of an identity gives its segments back. -/
theorem cut_text {i : Ident} (h : i.Separable) :
    (cut 3 i.text.toList).map String.ofList = i.segments := by
  have hcut : cut 3 i.text.toList = i.segments.map String.toList := by
    rw [toList_text]
    by_cases hzero : i = {}
    · subst hzero
      decide
    · obtain ⟨-, -, heq⟩ | ⟨-, -, hname, heq⟩ | ⟨-, -, heq⟩ | ⟨-, -, heq⟩ := segments_cases hzero
      all_goals
        rw [heq]
        refine cut_intercalate (by simp) (by simp) ?_
        simp [h.provider, h.kind, h.scope]
      simpa using hname
  rw [hcut, List.map_map]
  simp

/-! ### Identities with one text -/

/-- `a` has no scope and is called what the scope of the nameless `b` is called. -/
structure Shadows (a b : Ident) : Prop where
  provider_eq : a.provider = b.provider
  kind_eq : a.kind = b.kind
  scope_eq : a.scope = ""
  name_eq : b.name = ""
  /-- The one text stands for a name here and for a scope there. -/
  name_eq_scope : a.name = b.scope
  scope_ne : b.scope ≠ ""
  colon : ':' ∉ b.scope.toList

theorem segments_ne_of_ne {i : Ident} (h : i ≠ {}) : i.segments ≠ [""] := by
  obtain ⟨-, -, heq⟩ | ⟨-, -, -, heq⟩ | ⟨-, -, heq⟩ | ⟨-, -, heq⟩ := segments_cases h <;>
    simp [heq]

theorem Shadows.segments_eq {a b : Ident} (h : a.Shadows b) : a.segments = b.segments := by
  have ha : a ≠ {} := by
    rintro rfl
    exact h.scope_ne h.name_eq_scope.symm
  have hb : b ≠ {} := by
    rintro rfl
    exact h.scope_ne rfl
  simp [segments, ha, hb, h.provider_eq, h.kind_eq, h.scope_eq, h.name_eq, h.name_eq_scope,
    h.scope_ne, h.colon]

/-- Two identities show the same segments only if one shadows the other. -/
theorem segments_eq_iff {a b : Ident} :
    a.segments = b.segments ↔ a = b ∨ a.Shadows b ∨ b.Shadows a := by
  constructor
  · intro h
    by_cases ha : a = {}
    · by_cases hb : b = {}
      · exact Or.inl (ha.trans hb.symm)
      · exact absurd (h.symm.trans (congrArg segments ha)) (segments_ne_of_ne hb)
    · by_cases hb : b = {}
      · exact absurd (h.trans (congrArg segments hb)) (segments_ne_of_ne ha)
      · have hext : a.provider = b.provider → a.kind = b.kind → a.scope = b.scope →
            a.name = b.name → a = b := by
          intro hp hk hs hn
          exact ext_parts (by simp [parts, hp, hk, hs, hn])
        -- lists of different lengths differ; of length three there are two kinds, which may meet
        obtain ⟨hsa, hna, ha⟩ | ⟨hsa, hna, hca, ha⟩ | ⟨hsa, hna, ha⟩ | ⟨-, -, ha⟩ :=
          segments_cases ha <;>
        obtain ⟨hsb, hnb, hb⟩ | ⟨hsb, hnb, hcb, hb⟩ | ⟨hsb, hnb, hb⟩ | ⟨-, -, hb⟩ :=
          segments_cases hb <;>
        simp only [ha, hb, List.cons.injEq, and_true, reduceCtorEq, and_false] at h
        · exact Or.inl (hext h.1 h.2 (hsa.trans hsb.symm) (hna.trans hnb.symm))
        · exact Or.inl (hext h.1 h.2.1 (hsa.trans hsb.symm) h.2.2)
        · exact Or.inr (Or.inl ⟨h.1, h.2.1, hsa, hnb, h.2.2, hsb, h.2.2 ▸ hca⟩)
        · exact Or.inr (Or.inr ⟨h.1.symm, h.2.1.symm, hsb, hna, h.2.2.symm, hsa, h.2.2 ▸ hcb⟩)
        · exact Or.inl (hext h.1 h.2.1 h.2.2 (hna.trans hnb.symm))
        · exact Or.inl (hext h.1 h.2.1 h.2.2.1 h.2.2.2)
  · rintro (rfl | h | h)
    · rfl
    · exact h.segments_eq
    · exact h.segments_eq.symm

theorem Shadows.text_eq {a b : Ident} (h : a.Shadows b) : a.text = b.text := by
  rw [← String.toList_inj, toList_text, toList_text, h.segments_eq]

/-- Among identities without colons before the name, a text is shared with shadows only. -/
theorem text_eq_text_iff {a b : Ident} (ha : a.Separable) (hb : b.Separable) :
    a.text = b.text ↔ a = b ∨ a.Shadows b ∨ b.Shadows a := by
  rw [← segments_eq_iff]
  constructor
  · intro h
    rw [← cut_text ha, ← cut_text hb, h]
  · intro h
    rw [← String.toList_inj, toList_text, toList_text, h]

/-! ### Reading a text back -/

/-- Every part of an identity consists of the characters that it may have. -/
structure WellSpelled (i : Ident) : Prop where
  provider_ne : i.provider ≠ ""
  provider : ∀ c ∈ i.provider.toList, isWordChar c = true
  kind : ∀ c ∈ i.kind.toList, isWordChar c = true
  scope : ∀ c ∈ i.scope.toList, isScopeChar c = true
  name : ∀ c ∈ i.name.toList, isNameChar c = true

theorem problems_eq_nil_iff {i : Ident} : i.problems = [] ↔ i.WellSpelled := by
  simp only [problems, List.append_eq_nil_iff, ite_eq_right_iff, reduceCtorEq, imp_false,
    Bool.or_eq_true, not_or, Bool.not_eq_true', Bool.not_eq_false, List.all_eq_true,
    String.isEmpty_iff]
  constructor
  · rintro ⟨⟨⟨⟨hne, hprovider⟩, hkind⟩, hscope⟩, hname⟩
    exact ⟨hne, hprovider, hkind, hscope, hname⟩
  · intro h
    exact ⟨⟨⟨⟨h.provider_ne, h.provider⟩, h.kind⟩, h.scope⟩, h.name⟩

theorem validate_eq_ok_iff {i j : Ident} {s : String} :
    i.validate s = .ok j ↔ i.WellSpelled ∧ j = i := by
  rw [← problems_eq_nil_iff, validate]
  split
  case h_1 heq => simp [heq, eq_comm]
  case h_2 hne => exact ⟨fun h => (nomatch h), fun h => absurd h.1 hne⟩

section Cut

variable {s provider kind scope name : String}

theorem parse_of_cut_two (h : (cut 3 s.toList).map String.ofList = [provider, kind]) :
    parse s = validate { provider, kind } s := by
  rw [parse, h]
  split <;> grind

theorem parse_of_cut_three (h : (cut 3 s.toList).map String.ofList = [provider, kind, name]) :
    parse s = validate { provider, kind, name } s := by
  rw [parse, h]
  split <;> grind

theorem parse_of_cut_four
    (h : (cut 3 s.toList).map String.ofList = [provider, kind, scope, name]) :
    parse s = validate { provider, kind, scope, name } s := by
  rw [parse, h]
  split <;> grind

end Cut

/-- What is read is either nothing at all or well spelled. -/
theorem eq_or_wellSpelled_of_parse {s : String} {i : Ident} (h : parse s = .ok i) :
    i = {} ∨ i.WellSpelled := by
  rw [parse] at h
  split at h
  case h_1 =>
      cases h
      exact Or.inl rfl
  case h_5 => cases h
  all_goals
    obtain ⟨hspelled, rfl⟩ := validate_eq_ok_iff.1 h
    exact Or.inr hspelled

theorem isScopeChar_of_isWordChar {c : Char} (h : isWordChar c = true) : isScopeChar c = true := by
  simp [isScopeChar, h]

theorem isNameChar_of_isScopeChar {c : Char} (h : isScopeChar c = true) : isNameChar c = true := by
  simp [isNameChar, h]

theorem colon_notMem {cs : List Char} (h : ∀ c ∈ cs, isScopeChar c = true) : ':' ∉ cs :=
  fun hmem => absurd (h _ hmem) (by decide)

theorem WellSpelled.separable {i : Ident} (h : i.WellSpelled) : i.Separable where
  provider := colon_notMem fun c hc => isScopeChar_of_isWordChar (h.provider c hc)
  kind := colon_notMem fun c hc => isScopeChar_of_isWordChar (h.kind c hc)
  scope := colon_notMem h.scope

/-- What is read has no colon before its name. -/
theorem separable_of_parse {s : String} {i : Ident} (h : parse s = .ok i) : i.Separable := by
  obtain rfl | hspelled := eq_or_wellSpelled_of_parse h
  · exact ⟨by decide, by decide, by decide⟩
  · exact hspelled.separable

/-- The identity with its scope in the place of a missing name. -/
def unscoped (i : Ident) : Ident :=
  if i.name = "" then { i with scope := "", name := i.scope } else i

theorem unscoped_eq_self_iff {i : Ident} : i.unscoped = i ↔ i.scope = "" ∨ i.name ≠ "" := by
  obtain ⟨provider, kind, scope, name⟩ := i
  by_cases hname : name = "" <;> simp [unscoped, hname, eq_comm]

/-- The identity shadows itself with a scope and without a name. -/
theorem unscoped_shadows {i : Ident} (hname : i.name = "") (hscope : i.scope ≠ "")
    (hcolon : ':' ∉ i.scope.toList) : i.unscoped.Shadows i := by
  rw [unscoped, if_pos hname]
  exact ⟨rfl, rfl, rfl, hname, rfl, hscope, hcolon⟩

@[simp] theorem unscoped_provider (i : Ident) : i.unscoped.provider = i.provider := by
  rw [unscoped]
  split <;> rfl

@[simp] theorem unscoped_kind (i : Ident) : i.unscoped.kind = i.kind := by
  rw [unscoped]
  split <;> rfl

@[simp] theorem unscoped_tag (i : Ident) : i.unscoped.tag = i.tag := by
  simp [tag]

/-- A scope in the place of a missing name looks the same in a text. -/
theorem Separable.text_unscoped {i : Ident} (h : i.Separable) : i.unscoped.text = i.text := by
  by_cases hsame : i.scope = "" ∨ i.name ≠ ""
  · rw [unscoped_eq_self_iff.2 hsame]
  · obtain ⟨hscope, hname⟩ := not_or.1 hsame
    exact (unscoped_shadows (not_not.1 hname) hscope h.scope).text_eq

/-- The text of a well spelled identity reads back as the identity, but for a scope that has
slipped into the place of a missing name. -/
theorem WellSpelled.parse_text {i : Ident} (h : i.WellSpelled) : parse i.text = .ok i.unscoped := by
  have hne : i ≠ {} := by
    rintro rfl
    exact h.provider_ne rfl
  have hcut := cut_text h.separable
  obtain ⟨hscope, hname, heq⟩ | ⟨hscope, hname, -, heq⟩ | ⟨-, hname, heq⟩ | ⟨-, hname, heq⟩ :=
    segments_cases hne
  all_goals rw [heq] at hcut
  · rw [parse_of_cut_two hcut, validate_eq_ok_iff]
    exact ⟨⟨h.provider_ne, h.provider, h.kind, by simp, by simp⟩, by simp [unscoped, hscope, hname]⟩
  · rw [parse_of_cut_three hcut, validate_eq_ok_iff]
    refine ⟨⟨h.provider_ne, h.provider, h.kind, by simp, h.name⟩, ?_⟩
    rw [unscoped, if_neg hname, ← hscope]
  · rw [parse_of_cut_three hcut, validate_eq_ok_iff]
    exact ⟨⟨h.provider_ne, h.provider, h.kind, by simp,
      fun c hc => isNameChar_of_isScopeChar (h.scope c hc)⟩, by simp [unscoped, hname]⟩
  · rw [parse_of_cut_four hcut, validate_eq_ok_iff]
    exact ⟨h, by simp [unscoped, hname]⟩

/-- What was read from a text reads back from its own text, but for a scope that has slipped into
the place of a missing name. -/
theorem parse_text_of_parse {s : String} {i : Ident} (h : parse s = .ok i) :
    parse i.text = .ok i.unscoped := by
  obtain rfl | hspelled := eq_or_wellSpelled_of_parse h
  · rfl
  · exact hspelled.parse_text

/-- **An identity that was read survives its text unless it has a scope and no name.**  Then its
scope is read as its name; nothing else is lost. -/
theorem parse_text_eq_iff {s : String} {i : Ident} (h : parse s = .ok i) :
    (parse i.text = .ok i ↔ i.scope = "" ∨ i.name ≠ "") ∧
      (decode (.text i.text) = some i ↔ i.scope = "" ∨ i.name ≠ "") ∧
      (i.name = "" → parse i.text = .ok { i with scope := "", name := i.scope }) := by
  have hread := parse_text_of_parse h
  have hdecode : decode (.text i.text) = some i.unscoped := by
    rw [decode]
    change (parse i.text).toOption = _
    rw [hread]
    rfl
  refine ⟨?_, ?_, fun hname => ?_⟩
  · rw [hread, Except.ok.injEq, unscoped_eq_self_iff]
  · rw [hdecode, Option.some_inj, unscoped_eq_self_iff]
  · rw [hread, unscoped, if_pos hname]

/-- A subnet whose scope is known and whose name is not. -/
def nameless : Ident := { provider := "aws", kind := "subnet", scope := "vpc" }

theorem parse_nameless : parse "aws:subnet:vpc:" = .ok nameless := rfl

/-- The scope of a nameless subnet comes back as its name. -/
theorem parse_text_eq_iff_nameless :
    parse "aws:subnet:vpc:" = .ok nameless ∧ parse nameless.text ≠ .ok nameless ∧
      parse nameless.text = .ok { provider := "aws", kind := "subnet", name := "vpc" } := by
  obtain ⟨hparse, -, hlost⟩ := parse_text_eq_iff parse_nameless
  exact ⟨parse_nameless, fun heq => absurd (hparse.1 heq) (by decide), hlost rfl⟩

/-- Not everything that is read survives its text. -/
theorem not_forall_parse_text : ¬ ∀ s i, parse s = .ok i → parse i.text = .ok i := by
  intro h
  have hlost := (parse_text_of_parse parse_nameless).symm.trans (h _ _ parse_nameless)
  exact absurd (unscoped_eq_self_iff.1 (Except.ok.inj hlost)) (by decide)

/-! ### Reading and writing again -/

/-- Reads a text and writes what was read, the given number of times. -/
def recopy : ℕ → String → Except Fault String
  | 0, t => .ok t
  | n + 1, t => (parse t).bind fun i => recopy n i.text

/-- A text that is that of what it is read as is copied unchanged. -/
theorem recopy_eq {t : String} {i : Ident} (hparse : parse t = .ok i) (htext : i.text = t) (n : ℕ) :
    recopy n t = .ok t := by
  induction n with
  | zero => rfl
  | succ n ih =>
      have hstep : recopy (n + 1) t = recopy n i.text := by
        rw [recopy, hparse]
        rfl
      rw [hstep, htext, ih]

/-- **The text of what was read is settled**: it is read without a failure, as an identity of the
same type that has the same text and that reading it once more does not change, so from the first
copy on all copies are the same text.  Only the identity may change, and only once. -/
theorem parse_text_settles {s : String} {i : Ident} (h : parse s = .ok i) :
    (∃ j, parse i.text = .ok j ∧ j.provider = i.provider ∧ j.kind = i.kind ∧ j.tag = i.tag ∧
      j.text = i.text ∧ parse j.text = .ok j) ∧
      (∀ n, recopy n i.text = .ok i.text) ∧ ∀ n, recopy (n + 1) s = .ok i.text := by
  have hread : parse i.text = .ok i.unscoped := parse_text_of_parse h
  have htext : i.unscoped.text = i.text := (separable_of_parse h).text_unscoped
  have hcopies : ∀ n, recopy n i.text = .ok i.text := recopy_eq hread htext
  refine ⟨⟨i.unscoped, hread, unscoped_provider i, unscoped_kind i, unscoped_tag i, htext, ?_⟩,
    hcopies, fun n => ?_⟩
  · rw [htext, hread]
  · rw [recopy, h]
    exact hcopies n

/-- The nameless subnet is read back as another one with the same text. -/
theorem parse_text_settles_nameless :
    parse "aws:subnet:vpc:" = .ok nameless ∧ nameless.text = "aws:subnet:vpc" ∧
      (∃ j, parse nameless.text = .ok j ∧ j ≠ nameless ∧ j.text = nameless.text) ∧
      ∀ n, recopy (n + 1) "aws:subnet:vpc:" = .ok "aws:subnet:vpc" := by
  obtain ⟨⟨j, hread, -, -, -, htext, hback⟩, -, hcopies⟩ := parse_text_settles parse_nameless
  refine ⟨parse_nameless, rfl, ⟨j, hread, ?_, htext⟩, hcopies⟩
  rintro rfl
  have hlost := (parse_text_of_parse parse_nameless).symm.trans hback
  exact absurd (unscoped_eq_self_iff.1 (Except.ok.inj hlost)) (by decide)

end Groundwork.Ident
