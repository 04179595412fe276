/-
Words as scalars.

A word is a text on one line in which nothing has to be escaped and nothing separates words.  The
writer puts quotes around a word only if it would be taken for something else, and the reader finds
the end of the word again in front of a colon and at the end of a line.

Main definitions:

* `Groundwork.Yaml.Solid` — the words;
* `Groundwork.Yaml.Fresh` — the texts that start with a token.

Main results:

* `Groundwork.Yaml.scalarText_cases` — how a word is written;
* `Groundwork.Yaml.Scalar.quoted_word` — reading a word in quotes;
* `Groundwork.Yaml.Scalar.plain_key`, `Groundwork.Yaml.Scalar.plain_line` — reading a word without
  quotes, before a colon and before the end of a line.
-/
import Groundwork.Yaml.Printer
import Groundwork.Yaml.Scalar
import Mathlib.Data.String.Basic

set_option relaxedAutoImplicit false
set_option autoImplicit false

namespace Groundwork.Yaml

/-! ### Words -/

/-- No character of the text separates words or has to be escaped. -/
def Solid (s : String) : Prop := ∀ c ∈ s.toList, isPrintable c = true ∧ isSpace c = false

/-- The text is at its end or starts with a token. -/
def Fresh (cs : List Char) : Prop := ∀ c ∈ cs.head?, isSpace c = false ∧ c ≠ '#' ∧ c ≠ '\ufeff'

@[simp] theorem length_spaces (k : ℕ) : (spaces k).length = k := List.length_replicate

theorem fresh_nil : Fresh [] := by
  intro c hc
  cases hc

theorem fresh_cons {c : Char} {cs : List Char} (h : isSpace c = false ∧ c ≠ '#' ∧ c ≠ '\ufeff') :
    Fresh (c :: cs) := by
  intro d hd
  rw [← Option.some_inj.1 hd]
  exact h

theorem isBreak_of_isSpace_eq_false {c : Char} (h : isSpace c = false) : isBreak c = false :=
  (Bool.or_eq_false_iff.1 h).2

theorem isBlank_of_isSpace_eq_false {c : Char} (h : isSpace c = false) : isBlank c = false :=
  (Bool.or_eq_false_iff.1 h).1

theorem endsWord_append {cs : List Char} (h : endsWord cs = false) (after : List Char) :
    endsWord (cs ++ after) = false := by
  cases cs with
  | nil => cases h
  | cons c cs => exact h

/-- The letters of a word between quotes. -/
def doubled (c : Char) : List Char := if c = '\'' then [c, c] else [c]

theorem length_flatMap_doubled (cs : List Char) :
    cs.length ≤ (cs.flatMap doubled).length ∧ (cs.flatMap doubled).length ≤ 2 * cs.length := by
  induction cs with
  | nil => simp
  | cons c cs ih =>
      rw [List.flatMap_cons, List.length_append, List.length_cons, doubled]
      split <;> simp only [List.length_cons, List.length_nil] <;> omega

theorem length_toList_le_utf8ByteSize (s : String) : s.toList.length ≤ s.utf8ByteSize := by
  have hlist (cs : List Char) : cs.length ≤ (String.ofList cs).utf8ByteSize := by
    rw [String.utf8ByteSize_ofList]
    induction cs with
    | nil => simp
    | cons c cs ih =>
        have hpos := c.utf8Size_pos
        simp only [String.utf8Len_cons, List.length_cons]
        omega
  simpa using hlist s.toList

theorem singleBody_of_solid (indent : ℕ) {cs : List Char} (h : ∀ c ∈ cs, isBreak c = false) :
    singleBody indent false cs = cs.flatMap doubled := by
  induction cs with
  | nil => rfl
  | cons c cs ih =>
      rw [List.forall_mem_cons] at h
      rw [singleBody, h.1, ih h.2]
      rfl

theorem anyNeighbors_eq_false {p : Char → Char → Bool} {cs : List Char}
    (h : ∀ a ∈ cs, ∀ b ∈ cs, p a b = false) : anyNeighbors p cs = false := by
  induction cs with
  | nil => rfl
  | cons a cs ih =>
      cases cs with
      | nil => rfl
      | cons b cs =>
          rw [anyNeighbors, h a (by simp) b (by simp)]
          exact ih fun c hc d hd => h c (List.mem_cons_of_mem a hc) d (List.mem_cons_of_mem a hd)

theorem shapeOf_of_solid {s : String} (h : Solid s) :
    shapeOf s.toList = ⟨looksLikeMarkup s.toList, false, false, false, false, false, false⟩ := by
  have hbreak : ∀ c ∈ s.toList, isBreak c = false :=
    fun c hc => isBreak_of_isSpace_eq_false (h c hc).2
  have hspace : ∀ c ∈ s.toList, c ≠ ' ' := by
    rintro c hc rfl
    exact absurd (h _ hc).2 (by decide)
  have hedge (o : Option Char) (ho : ∀ c ∈ o, c ∈ s.toList) :
      (o.any fun c => decide (c = ' ') || isBreak c) = false := by
    cases o with
    | none => rfl
    | some c => simp [hspace c (ho c rfl), hbreak c (ho c rfl)]
  have hspecial : s.toList.any (!isPrintable ·) = false := by
    rw [List.any_eq_false]
    intro c hc
    simp [(h c hc).1]
  have hbroken : s.toList.any isBreak = false := by
    rw [List.any_eq_false]
    intro c hc
    simp [hbreak c hc]
  have hlast : s.toList.getLast? ≠ some ' ' :=
    fun heq => hspace _ (List.mem_of_getLast? heq) rfl
  have hfirst := hedge s.toList.head? fun c hc => List.mem_of_mem_head? hc
  have hfinal := hedge s.toList.getLast? fun c hc => List.mem_of_getLast? hc
  rw [shapeOf, hspecial, hbroken, decide_eq_false hlast,
    anyNeighbors_eq_false fun a ha b _ => by simp [hbreak a ha],
    anyNeighbors_eq_false fun a ha b _ => by simp [hspace a ha]]
  simp only [hfirst, hfinal, Bool.or_self]

/-- A word is written as it is, or in single quotes. -/
theorem styleOf_of_solid {s : String} (h : Solid s) :
    styleOf s = if isAmbiguous s || looksLikeMarkup s.toList then .single else .plain := by
  have hline : '\n' ∉ s.toList := fun hmem => absurd (h _ hmem).2 (by decide)
  simp [styleOf, shapeOf_of_solid h, hline]

/-- The indicators, one by one. -/
theorem notMem_of_isIndicator {c : Char} (h : isIndicator c = false) :
    c ∉ ['#', ',', '[', ']', '\x7b', '\x7d', '&', '*', '!', '|', '>', '\'', '"', '%', '@',
      '\x60'] := by
  rw [isIndicator, String.contains_char_eq, decide_eq_false_iff_not] at h
  exact h

/-- A text with this first character and these further ones would not be taken for markup. -/
structure Bare (c : Char) (cs : List Char) : Prop where
  dashes : (c :: cs).take 3 ≠ ['-', '-', '-']
  dots : (c :: cs).take 3 ≠ ['.', '.', '.']
  indicator : isIndicator c = false
  word : c = '?' ∨ c = ':' ∨ c = '-' → endsWord cs = false
  mark : hasMark c cs = false

theorem Bare.of_markup {c : Char} {cs : List Char} (h : looksLikeMarkup (c :: cs) = false) :
    Bare c cs := by
  simp only [looksLikeMarkup, Bool.or_eq_false_iff, decide_eq_false_iff_not] at h
  obtain ⟨⟨⟨⟨hdashes, hdots⟩, hindicator⟩, hword⟩, hmark⟩ := h
  refine ⟨hdashes, hdots, hindicator, fun hc => ?_, hmark⟩
  have hfirst : (decide (c = '?') || decide (c = ':') || decide (c = '-')) = true := by
    simpa [or_assoc] using hc
  rwa [hfirst, Bool.true_and] at hword

/-- A word is written as it is, if it would not be taken for something else, or between quotes. -/
theorem scalarText_cases {s : String} (h : Solid s) (indent : ℕ) :
    (styleOf s = .plain ∧ scalarText indent s = s.toList ∧
        ∃ c cs, s.toList = c :: cs ∧ Bare c cs) ∨
      (styleOf s = .single ∧
        scalarText indent s = '\'' :: (s.toList.flatMap doubled ++ ['\''])) := by
  have hbreak : ∀ c ∈ s.toList, isBreak c = false :=
    fun c hc => isBreak_of_isSpace_eq_false (h c hc).2
  cases hquote : isAmbiguous s || looksLikeMarkup s.toList with
  | true =>
      have hstyle : styleOf s = .single := by rw [styleOf_of_solid h, hquote, if_pos rfl]
      refine Or.inr ⟨hstyle, ?_⟩
      rw [scalarText, hstyle, singleBody_of_solid indent hbreak]
      rfl
  | false =>
      have hstyle : styleOf s = .plain := by
        rw [styleOf_of_solid h, hquote, if_neg Bool.false_ne_true]
      rw [Bool.or_eq_false_iff] at hquote
      refine Or.inl ⟨hstyle, by rw [scalarText, hstyle], ?_⟩
      cases hs : s.toList with
      | nil =>
          -- the empty text is ambiguous, so that it has quotes
          rw [String.toList_eq_nil_iff] at hs
          subst hs
          exact absurd hquote.1 (by decide)
      | cons c cs => exact ⟨c, cs, rfl, .of_markup (hs ▸ hquote.2)⟩

/-- A word that may stand before a colon is not long, with quotes or without. -/
theorem length_scalarText_le {s : String} (h : Solid s) (hkey : isSimpleKey s = true)
    (indent : ℕ) : (scalarText indent s).length ≤ 258 := by
  have hsize : s.utf8ByteSize ≤ 128 := by
    simp only [isSimpleKey, Bool.and_eq_true, decide_eq_true_eq] at hkey
    exact hkey.2
  have hletters := length_toList_le_utf8ByteSize s
  have hdoubled := (length_flatMap_doubled s.toList).2
  rcases scalarText_cases h indent with ⟨-, htext, -⟩ | ⟨-, htext⟩
  · rw [htext]
    omega
  · rw [htext, List.length_cons, List.length_append, List.length_singleton]
    omega

theorem exists_cons_scalarText {s : String} (h : Solid s) (indent : ℕ) :
    ∃ c cs, scalarText indent s = c :: cs := by
  rcases scalarText_cases h indent with ⟨-, htext, c, cs, htoList, -⟩ | ⟨-, htext⟩
  · exact ⟨c, cs, htext.trans htoList⟩
  · exact ⟨_, _, htext⟩

/-! ### Positions -/

namespace Cursor

theorem advance_zero (c : Cursor) : c.advance 0 = c := rfl

theorem advance_advance (c : Cursor) (m n : ℕ) :
    (c.advance m).advance n = c.advance (m + n) := by
  simp [advance, Nat.add_assoc]

/-- Going on to what is left after some characters of the line. -/
theorem goto_append {c : Cursor} {cs rest : List Char} (h : c.rest = cs ++ rest) :
    c.goto rest = c.advance cs.length := by
  rw [goto, h, List.length_append, Nat.add_sub_cancel_right]

theorem rest_advance {c : Cursor} {w rest : List Char} (h : c.rest = w ++ rest) :
    (c.advance w.length).rest = rest := by
  rw [advance, h, List.drop_left]

end Cursor

/-- After its break, a gap goes on to the next token. -/
theorem Gap.read_spaces (limit : ℕ) {next : List Char} (hnext : Fresh next) {k n : ℕ} {c : Cursor}
    {g : Gap} (hrest : c.rest = spaces k ++ next) (hg : g.broken = true) (hn : k < n) :
    Gap.read limit n c g = some (g, c.advance k) := by
  induction k generalizing n c with
  | zero =>
      obtain ⟨n, rfl⟩ : ∃ m, n = m + 1 := ⟨n - 1, by omega⟩
      change c.rest = next at hrest
      rw [Gap.read, hrest, Cursor.advance_zero]
      cases next with
      | nil => rfl
      | cons a next =>
          have ha := (hnext a rfl).1
          simp [isBlank_of_isSpace_eq_false ha, isBreak_of_isSpace_eq_false ha]
  | succ k ih =>
      obtain ⟨n, rfl⟩ : ∃ m, n = m + 1 := ⟨n - 1, by omega⟩
      change c.rest = ' ' :: (spaces k ++ next) at hrest
      have hstep : (c.advance 1).rest = spaces k ++ next := by simp [Cursor.advance, hrest]
      have hrec := ih hstep (n := n) (by omega)
      rw [Cursor.advance_advance] at hrec
      rw [Gap.read, hrest]
      simp [isBlank, hg, hrec, Nat.add_comm 1 k]

namespace Scalar

/-! ### Words in quotes -/

theorem quotedWord_doubled {cs after : List Char} (h : ∀ c ∈ cs, isSpace c = false)
    (hafter : after.head? ≠ some '\'') {n : ℕ} (hn : cs.length < n) :
    quotedWord true n (cs.flatMap doubled ++ '\'' :: after) = some (cs, '\'' :: after) := by
  induction cs generalizing n with
  | nil =>
      obtain ⟨n, rfl⟩ : ∃ m, n = m + 1 := ⟨n - 1, by omega⟩
      cases after with
      | nil => rfl
      | cons a after =>
          have hne : a ≠ '\'' := fun heq => hafter (congrArg some heq)
          simp [quotedWord, isSpace, isBlank, isBreak, hne]
  | cons c cs ih =>
      obtain ⟨n, rfl⟩ : ∃ m, n = m + 1 := ⟨n - 1, by omega⟩
      rw [List.forall_mem_cons] at h
      have hrest := ih h.2 (n := n) (by simpa using hn)
      by_cases hc : c = '\''
      · subst hc
        simp [doubled, quotedWord, isSpace, isBlank, isBreak, hrest]
      · simp [doubled, quotedWord, h.1, hc, hrest]

/-- A word in quotes is read up to its closing quote. -/
theorem quoted_word {s : String} (h : Solid s) {c : Cursor} {after : List Char}
    (hrest : c.rest = '\'' :: (s.toList.flatMap doubled ++ ['\'']) ++ after)
    (hafter : after.head? ≠ some '\'') :
    quoted true c = some (s, c.advance ('\'' :: (s.toList.flatMap doubled ++ ['\''])).length) := by
  have hlength := (length_flatMap_doubled s.toList).1
  have hword := quotedWord_doubled (n := (c.advance 1).rest.length + 1)
    (fun ch hch => (h ch hch).2) hafter
  generalize s.toList.flatMap doubled = body at hrest hlength hword ⊢
  have hbody : (c.advance 1).rest = body ++ '\'' :: after := by
    simp [Cursor.advance, hrest]
  have hmark : (c.advance 1).atDocumentMark = false := by
    simp [Cursor.atDocumentMark, Cursor.advance]
  have hempty : (c.advance 1).rest.isEmpty = false := by
    rw [hbody]
    cases body <;> rfl
  have hgoto : (c.advance 1).goto ('\'' :: after) = (c.advance 1).advance body.length :=
    Cursor.goto_append hbody
  have hclose : ((c.advance 1).advance body.length).isAt '\'' = true := by
    rw [Cursor.isAt, Cursor.rest_advance hbody]
    rfl
  have hend : ((c.advance 1).advance body.length).advance 1 =
      c.advance ('\'' :: (body ++ ['\''])).length := by
    rw [Cursor.advance_advance, Cursor.advance_advance]
    congr 1
    simp
    omega
  rw [← hbody] at hword
  rw [quoted, quotedFrom, hmark, hempty, hword (by rw [hbody, List.length_append]; omega)]
  simp [hgoto, hclose, hend]

/-! ### Words without quotes -/

theorem plainWord_colon {more : List Char} (h : endsWord more = true) :
    plainWord false (':' :: more) = some ([], ':' :: more) := by
  simp [plainWord, isSpace, isBlank, isBreak, h]

theorem plainWord_newline (more : List Char) :
    plainWord false ('\n' :: more) = some ([], '\n' :: more) := by
  simp [plainWord, isSpace, isBlank, isBreak]

/-- A word goes on until what follows it. -/
theorem plainWord_append {cs after : List Char} (h : ∀ c ∈ cs, isSpace c = false) {before : Char}
    (hmark : hasMark before cs = false) (hafter : plainWord false after = some ([], after)) :
    plainWord false (cs ++ after) = some (cs, after) := by
  induction cs generalizing before with
  | nil => exact hafter
  | cons c cs ih =>
      rw [List.forall_mem_cons] at h
      simp only [hasMark, Bool.or_eq_false_iff, Bool.and_eq_false_iff] at hmark
      have hcolon : (decide (c = ':') && endsWord (cs ++ after)) = false := by
        cases cs with
        | nil =>
            have hc := hmark.1.1.resolve_right (by decide)
            rw [hc, Bool.false_and]
        | cons d cs =>
            have hd : isSpace d = false := h.2 d List.mem_cons_self
            simp [endsWord, hd]
      simp only [List.cons_append, plainWord, h.1, hcolon, ih h.2 hmark.2]
      simp

section Bare

variable {ch : Char} {cs after : List Char} (hsolid : ∀ c ∈ ch :: cs, isSpace c = false)
  (hbare : Bare ch cs)

include hsolid hbare

/-- The word that is written without quotes is found again. -/
theorem plainWord_of_bare (hafter : plainWord false after = some ([], after)) :
    plainWord false (ch :: cs ++ after) = some (ch :: cs, after) := by
  rw [List.forall_mem_cons] at hsolid
  have hcolon : (decide (ch = ':') && endsWord (cs ++ after)) = false := by
    by_cases hc : ch = ':'
    · rw [endsWord_append (hbare.word (Or.inr (Or.inl hc))), Bool.and_false]
    · rw [decide_eq_false hc, Bool.false_and]
  have hrest := plainWord_append hsolid.2 hbare.mark hafter
  simp only [List.cons_append, plainWord, hsolid.1, hcolon, hrest]
  simp

omit hsolid in
/-- It is not a mark between documents, either, and not a comment. -/
theorem starts_of_bare {c : Cursor} {a : Char} (ha : a ≠ '-' ∧ a ≠ '.')
    (hrest : c.rest = ch :: cs ++ a :: after) :
    c.atDocumentMark = false ∧ c.isAt '#' = false := by
  have hdashes := hbare.dashes
  have hdots := hbare.dots
  have hhash : ch ≠ '#' := by
    rintro rfl
    exact notMem_of_isIndicator hbare.indicator (by decide)
  constructor
  · rw [Cursor.atDocumentMark, hrest]
    match cs with
    | [] => simp [ha.1, ha.2]
    | [d] => simp [ha.1, ha.2]
    | d :: e :: cs =>
        simp only [List.take_succ_cons, List.take_zero] at hdashes hdots
        simp only [List.cons_append, List.take_succ_cons, List.take_zero,
          beq_eq_false_iff_ne.2 hdashes, beq_eq_false_iff_ne.2 hdots, Bool.or_self, Bool.and_false]
  · simp [Cursor.isAt, hrest, hhash]

/-- The first word of a plain scalar; whether there are more depends on what follows it. -/
theorem plainFrom_of_bare (limit n : ℕ) {c : Cursor} {a : Char} (ha : a ≠ '-' ∧ a ≠ '.')
    (hrest : c.rest = ch :: cs ++ a :: after)
    (hafter : plainWord false (a :: after) = some ([], a :: after)) :
    plainFrom false limit (n + 1) c {} [] =
      if isSpace a then
        (Gap.read limit (after.length + 2) (c.advance (ch :: cs).length) {}).bind fun g =>
          if g.2.column < limit then some (ch :: cs, g.1.broken, g.2)
          else plainFrom false limit n g.2 g.1 (ch :: cs)
      else some (ch :: cs, false, c.advance (ch :: cs).length) := by
  obtain ⟨hmark, hhash⟩ := starts_of_bare hbare ha hrest
  have hword := plainWord_of_bare hsolid hbare hafter
  have hgoto := Cursor.goto_append hrest
  have hrest' := Cursor.rest_advance hrest
  have hne : ch :: cs ≠ [] := List.cons_ne_nil ch cs
  rw [← hrest] at hword
  generalize c.advance (ch :: cs).length = d at hgoto hrest' ⊢
  generalize ch :: cs = word at hword hne hgoto ⊢
  have hpeek : d.peek.any isSpace = isSpace a := by
    rw [Cursor.peek, hrest']
    rfl
  rw [plainFrom, hmark, hhash, hword]
  cases hspace : isSpace a <;> simp [hgoto, hpeek, hne, Gap.text, hrest', hspace]

/-- A word before a colon. -/
theorem plain_key (limit : ℕ) {c : Cursor} {more : List Char}
    (hrest : c.rest = ch :: cs ++ ':' :: more) (hmore : endsWord more = true) :
    plain false limit c =
      some (String.ofList (ch :: cs), false, c.advance (ch :: cs).length) := by
  rw [plain, plainFrom_of_bare hsolid hbare limit _ (by decide) hrest (plainWord_colon hmore),
    if_neg (by decide)]
  rfl

/-- A word before the end of its line; the next line does not go on with it. -/
theorem plain_line {limit k : ℕ} {c : Cursor} {next : List Char} (hnext : Fresh next)
    (hrest : c.rest = ch :: cs ++ '\n' :: (spaces k ++ next)) (hk : k < limit) :
    ∃ c', plain false limit c = some (String.ofList (ch :: cs), true, c') ∧ c'.rest = next ∧
      c'.line = c.line + 1 ∧ c'.column = k := by
  have hafter := Cursor.rest_advance hrest
  have hline : (c.advance (ch :: cs).length).line = c.line := rfl
  have hplain := plainFrom_of_bare hsolid hbare limit c.rest.length (by decide) hrest
    (plainWord_newline (spaces k ++ next))
  generalize c.advance (ch :: cs).length = d at hafter hline hplain
  have hnextLine : (d.nextLine 1 (spaces k ++ next)).rest = spaces k ++ next := rfl
  have hgap : Gap.read limit ((spaces k ++ next).length + 2) d {} =
      some ({ first := ['\n'], broken := true }, (d.nextLine 1 (spaces k ++ next)).advance k) := by
    have hspaces := Gap.read_spaces limit hnext hnextLine (g := { first := ['\n'], broken := true })
      rfl (n := (spaces k ++ next).length + 1)
      (by rw [List.length_append, length_spaces]; omega)
    rw [Gap.read, hafter]
    simpa [isBlank, isBreak, Cursor.takeBreak, hafter] using hspaces
  have hcolumn : ((d.nextLine 1 (spaces k ++ next)).advance k).column = k := by
    simp [Cursor.advance, Cursor.nextLine]
  refine ⟨(d.nextLine 1 (spaces k ++ next)).advance k, ?_, ?_, by rw [← hline]; rfl, hcolumn⟩
  · rw [plain, hplain, if_pos (by decide), hgap, Option.bind_some, hcolumn, if_pos hk]
    rfl
  · have hrest' := Cursor.rest_advance hnextLine
    rwa [length_spaces] at hrest'

end Bare

end Scalar

end Groundwork.Yaml
