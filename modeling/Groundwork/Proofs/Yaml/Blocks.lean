/-
The tokens of data as they are written.

Data of words, lists and records are written in block style.  What is written of a value leads the
lexer from behind the key or the dash before it to the start of the next line, with one token for
each word and the tokens of the collections around them.

Main definitions:

* `Groundwork.Yaml.valueTokens`, `Groundwork.Yaml.fieldTokens`, `Groundwork.Yaml.itemTokens` — the
  tokens of a value, of members and of items.

Main results:

* `Groundwork.Yaml.lexes_of_texts` — a value is lexed, whatever stands around it;
* `Groundwork.Yaml.scan_render` — **the tokens of a record are those of its members**.
-/
import Groundwork.Proofs.Datum.Texts
import Groundwork.Proofs.Yaml.Tokens

set_option relaxedAutoImplicit false
set_option autoImplicit false

namespace Groundwork.Yaml

open Lexer (scalarToken opened openings)

/-! ### Tokens of data -/

mutual

/-- The tokens of a value; where `flat` holds, those of a list stand for themselves. -/
def valueTokens (flat : Bool) : Datum → List Token
  | .record (m :: ms) => .blockMapping :: (fieldTokens (m :: ms) ++ [.blockEnd])
  | .list (d :: ds) =>
    if flat then itemTokens (d :: ds)
    else .blockSequence :: (itemTokens (d :: ds) ++ [.blockEnd])
  | .record [] => [.flowMapping, .flowMappingEnd]
  | .list [] => [.flowSequence, .flowSequenceEnd]
  | .text s => [scalarToken s]
  | _ => []

/-- The tokens of the members of a record. -/
def fieldTokens : List (String × Datum) → List Token
  | [] => []
  | (k, d) :: ms =>
    .key :: scalarToken k :: .value :: (valueTokens (isSimpleKey k) d ++ fieldTokens ms)

/-- The tokens of the items of a list. -/
def itemTokens : List Datum → List Token
  | [] => []
  | d :: ds => .blockEntry :: (valueTokens false d ++ itemTokens ds)

end

/-! ### Texts of data -/

theorem itemText_eq_valueText (indent : ℕ) (d : Datum) :
    itemText indent d = valueText indent false d := by
  cases d with
  | list l => cases l <;> rfl
  | record l => cases l <;> rfl
  | _ => rfl

theorem endsWord_valueText (indent : ℕ) (simple : Bool) (d : Datum) (rest : List Char) :
    endsWord (valueText indent simple d ++ rest) = true := by
  cases d with
  | list l => cases l <;> cases simple <;> rfl
  | record l => cases l <;> cases simple <;> rfl
  | _ => rfl

theorem exists_valueText (indent : ℕ) (d : Datum) :
    ∃ cs, valueText indent false d = ' ' :: cs := by
  cases d with
  | list l => cases l <;> exact ⟨_, rfl⟩
  | record l => cases l <;> exact ⟨_, rfl⟩
  | _ => exact ⟨_, rfl⟩

theorem fresh_scalarText {s : String} (h : Solid s) (indent : ℕ) (rest : List Char) :
    Fresh (scalarText indent s ++ rest) := by
  rcases scalarText_cases h indent with ⟨-, htext, c, cs, htoList, hbare⟩ | ⟨-, htext⟩
  · have hc := h c (htoList ▸ List.mem_cons_self)
    rw [htext, htoList]
    refine fresh_cons ⟨hc.2, ?_, ?_⟩
    · rintro rfl
      exact notMem_of_isIndicator hbare.indicator (by decide)
    · rintro rfl
      exact absurd hc.1 (by decide)
  · rw [htext]
    exact fresh_cons (by decide)

/-- A word does not end its line. -/
theorem endLine_scalarText {s : String} (h : Solid s) (indent : ℕ) :
    endLine (scalarText indent s) = scalarText indent s ++ ['\n'] := by
  have hlast : ((scalarText indent s).getLast?.any isBreak) = false := by
    rcases scalarText_cases h indent with ⟨-, htext, -⟩ | ⟨-, htext⟩
    · rw [htext, Option.any_eq_false]
      intro c hc
      simpa using isBreak_of_isSpace_eq_false (h c (List.mem_of_getLast? hc)).2
    · rw [htext, ← List.cons_append, List.getLast?_concat]
      rfl
  rw [endLine, hlast, if_neg Bool.false_ne_true]

/-! ### Members and items -/

/-- From behind its key or its dash, a value is lexed up to the next line, which is indented no
further than what is around the value. -/
def Lexes (d : Datum) : Prop :=
  ∀ (simple : Bool) {s : Lexer} {column i j : ℕ} {outs : List ℤ} {toks : List Token}
    {next : List Char},
    s.At (!simple) (valueText i simple d ++ (spaces j ++ next)) column outs i toks →
    i < column → (simple = false → column = i + 1) → j ≤ i → Fresh next →
    ∃ s', s.Reaches s' ∧ s'.Stands true next j outs i (toks ++ valueTokens simple d)

section Collections

variable {s : Lexer} {i j : ℕ} {outs : List ℤ} {ind : ℤ} {toks : List Token} {next : List Char}
  {d : Datum}

/-- A member starts a mapping, if it is further in than what is around it. -/
theorem field_lexed {k : String} (hk : Solid k) (hd : Lexes d)
    (h : s.Stands true (keyText i k ++ (valueText i (isSimpleKey k) d ++ (spaces j ++ next)))
      i outs ind toks) (hind : ind ≤ i) (hj : j ≤ i) (hnext : Fresh next) :
    ∃ s', s.Reaches s' ∧ s'.Stands true next j (opened ind i outs) i
      (toks ++ openings .blockMapping ind i ++
        .key :: scalarToken k :: .value :: valueTokens (isSimpleKey k) d) := by
  cases hsimple : isSimpleKey k with
  | true =>
      rw [keyText, hsimple, if_pos rfl, List.append_assoc] at h
      obtain ⟨t, column, hreach, hlt, hat⟩ := h.simpleKey hind hk hsimple
        (endsWord_valueText i true d _)
      obtain ⟨s', hreach', hstands⟩ := hd true hat hlt
        (fun h => absurd h (by decide)) hj hnext
      exact ⟨s', hreach.trans hreach', by simpa using hstands⟩
  | false =>
      -- a key that is too long to stand before its colon has a line of its own
      rw [keyText, hsimple, if_neg Bool.false_ne_true, endLine_scalarText hk] at h
      simp only [List.cons_append, List.append_assoc, List.nil_append] at h
      obtain ⟨t, hreach, hat⟩ := h.question hind
      have hcolon : Fresh (':' :: (valueText i false d ++ (spaces j ++ next))) :=
        fresh_cons (by decide)
      have hscalar := hat.stands_spaces (k := 1) (hat.fades _) (fresh_scalarText hk (i + 2) _)
        hat.rest
      rw [hat.allowed, hat.column] at hscalar
      obtain ⟨u, hreach₂, hstands⟩ := hscalar.scalar hk (by omega) (Int.le_refl _) hcolon
      obtain ⟨v, hreach₃, hat'⟩ := hstands.colon (endsWord_valueText i false d _)
      obtain ⟨s', hreach₄, hstands'⟩ := hd false hat' (Nat.lt_succ_self _)
        (fun _ => rfl) hj hnext
      refine ⟨s', hreach.trans (hreach₂.trans (hreach₃.trans hreach₄)), ?_⟩
      simpa using hstands'

theorem fresh_fieldsText {m : String × Datum} (hm : Solid m.1) (ms : List (String × Datum))
    (rest : List Char) : Fresh (fieldsText i (m :: ms) ++ rest) := by
  have htext : ∃ tail, fieldsText i (m :: ms) = keyText i m.1 ++ tail := by
    cases ms <;> exact ⟨_, by rw [fieldsText, List.append_assoc]⟩
  obtain ⟨tail, htail⟩ := htext
  rw [htail, keyText]
  split
  · rw [List.append_assoc, List.append_assoc]
    exact fresh_scalarText hm _ _
  · exact fresh_cons (by decide)

/-- Members that follow one another make one mapping. -/
theorem fields_lexed {m : String × Datum} {ms : List (String × Datum)}
    (hnames : ∀ f ∈ m :: ms, Solid f.1) (hms : ∀ f ∈ m :: ms, Lexes f.2)
    (h : s.Stands true (fieldsText i (m :: ms) ++ (spaces j ++ next)) i outs ind toks)
    (hind : ind ≤ i) (hj : j ≤ i) (hnext : Fresh next) :
    ∃ s', s.Reaches s' ∧ s'.Stands true next j (opened ind i outs) i
      (toks ++ openings .blockMapping ind i ++ fieldTokens (m :: ms)) := by
  induction ms generalizing m s outs ind toks with
  | nil =>
      rw [List.forall_mem_singleton] at hnames hms
      rw [fieldsText] at h
      simp only [List.append_nil, List.append_assoc] at h
      simpa [fieldTokens] using field_lexed hnames hms h hind hj hnext
  | cons n ms ih =>
      rw [List.forall_mem_cons] at hnames hms
      have hfresh : Fresh (fieldsText i (n :: ms) ++ (spaces j ++ next)) :=
        fresh_fieldsText (hnames.2 n List.mem_cons_self) ms _
      rw [fieldsText] at h
      simp only [List.append_assoc] at h
      obtain ⟨t, hreach, hstands⟩ := field_lexed hnames.1 hms.1 h hind (Nat.le_refl i) hfresh
      obtain ⟨s', hreach', hstands'⟩ := ih hnames.2 hms.2 hstands (Int.le_refl _)
      rw [Lexer.opened_self, Lexer.openings_self] at hstands'
      refine ⟨s', hreach.trans hreach', ?_⟩
      rw [fieldTokens]
      simpa using hstands'

/-- An item starts a sequence, if it is further in than what is around it. -/
theorem item_lexed (hd : Lexes d)
    (h : s.Stands true ('-' :: (itemText i d ++ (spaces j ++ next))) i outs ind toks)
    (hind : ind ≤ i) (hj : j ≤ i) (hnext : Fresh next) :
    ∃ s', s.Reaches s' ∧ s'.Stands true next j (opened ind i outs) i
      (toks ++ openings .blockSequence ind i ++ .blockEntry :: valueTokens false d) := by
  obtain ⟨cs, hcs⟩ := exists_valueText i d
  rw [itemText_eq_valueText, hcs, List.cons_append] at h
  obtain ⟨t, hreach, hat⟩ := h.entry hind
  rw [← List.cons_append, ← hcs] at hat
  obtain ⟨s', hreach', hstands⟩ := hd false hat (Nat.lt_succ_self _) (fun _ => rfl) hj
    hnext
  exact ⟨s', hreach.trans hreach', by simpa using hstands⟩

/-- Items that follow one another make one sequence, or none where they stand as far out as what
is around them. -/
theorem items_lexed {ds : List Datum} (hds : ∀ e ∈ d :: ds, Lexes e)
    (h : s.Stands true (itemsText i (d :: ds) ++ (spaces j ++ next)) i outs ind toks)
    (hind : ind ≤ i) (hj : j ≤ i) (hnext : Fresh next) :
    ∃ s', s.Reaches s' ∧ s'.Stands true next j (opened ind i outs) i
      (toks ++ openings .blockSequence ind i ++ itemTokens (d :: ds)) := by
  induction ds generalizing d s outs ind toks with
  | nil =>
      rw [List.forall_mem_singleton] at hds
      rw [itemsText] at h
      simp only [List.append_nil, List.cons_append] at h
      simpa [itemTokens] using item_lexed hds h hind hj hnext
  | cons e ds ih =>
      rw [List.forall_mem_cons] at hds
      have hfresh : Fresh (itemsText i (e :: ds) ++ (spaces j ++ next)) := by
        cases ds <;> exact fresh_cons (by decide)
      rw [itemsText] at h
      simp only [List.append_assoc, List.cons_append] at h
      obtain ⟨t, hreach, hstands⟩ := item_lexed hds.1 h hind (Nat.le_refl i) hfresh
      obtain ⟨s', hreach', hstands'⟩ := ih hds.2 hstands (Int.le_refl _)
      rw [Lexer.opened_self, Lexer.openings_self] at hstands'
      refine ⟨s', hreach.trans hreach', ?_⟩
      rw [itemTokens]
      simpa using hstands'

end Collections

/-! ### Values -/

theorem lexes_text {text : String} (htext : Solid text) : Lexes (.text text) := by
  intro simple s column i j outs toks next hat hlt _ hj hnext
  have hvalue : valueText i simple (.text text) ++ (spaces j ++ next) =
      spaces 1 ++ (scalarText (i + 2) text ++ '\n' :: (spaces j ++ next)) := by
    change ' ' :: (endLine (scalarText (i + 2) text) ++ (spaces j ++ next)) = _
    rw [endLine_scalarText htext, List.append_assoc]
    rfl
  have hstands := hat.stands_spaces (hat.fades _) (fresh_scalarText htext (i + 2) _)
    (hat.rest.trans hvalue)
  exact hstands.scalar htext (by rw [hat.column]; omega) (by omega) hnext

theorem lexes_brackets {d : Datum} {l r : Char} {start stop : Token}
    (hlr : Lexer.IsBrackets l r start stop)
    (htext : ∀ i simple, valueText i simple d = [' ', l, r, '\n'])
    (htokens : ∀ simple, valueTokens simple d = [start, stop]) : Lexes d := by
  intro simple s column i j outs toks next hat hlt _ hj hnext
  have hfresh : Fresh (l :: r :: '\n' :: (spaces j ++ next)) := by
    refine fresh_cons ?_
    rcases hlr with ⟨rfl, -⟩ | ⟨rfl, -⟩ <;> decide
  have hrest := hat.rest
  rw [htext] at hrest
  have hstands := hat.stands_spaces (k := 1) (hat.fades _) hfresh hrest
  rw [htokens]
  exact hstands.brackets hlr (by rw [hat.column]; omega) hnext

theorem opened_of_lt {ind : ℤ} {column : ℕ} (h : ind < column) (outs : List ℤ) :
    opened ind column outs = ind :: outs :=
  if_pos h

theorem openings_of_lt {ind : ℤ} {column : ℕ} (h : ind < column) (t : Token) :
    openings t ind column = [t] :=
  if_pos h

/-- A record goes two columns further in, whether it starts on the next line or on this one. -/
theorem lexes_record {m : String × Datum} {ms : List (String × Datum)}
    (hnames : ∀ f ∈ m :: ms, Solid f.1) (hms : ∀ f ∈ m :: ms, Lexes f.2) :
    Lexes (.record (m :: ms)) := by
  intro simple s column i j outs toks next hat hlt hcolumn hj hnext
  have hfresh := fresh_fieldsText (i := i + 2) (hnames m List.mem_cons_self) ms (spaces j ++ next)
  have hstands : s.Stands true (fieldsText (i + 2) (m :: ms) ++ (spaces j ++ next)) (i + 2) outs i
      toks := by
    cases simple with
    | true =>
        refine hat.stands_newline (hat.fades _) hfresh (hat.rest.trans ?_)
        change '\n' :: (spaces (i + 2) ++ fieldsText (i + 2) (m :: ms)) ++ _ = _
        simp
    | false =>
        have hspaces := hat.stands_spaces (k := 1) (hat.fades _) hfresh hat.rest
        rwa [hat.allowed, hat.column, hcolumn rfl] at hspaces
  -- the mapping starts further in than what is around it, so that it ends before the next token
  have hind : (i : ℤ) < (i + 2 : ℕ) := by omega
  obtain ⟨s', hreach, hstands'⟩ := fields_lexed hnames hms hstands (Int.le_of_lt hind) (by omega)
    hnext
  rw [opened_of_lt hind, openings_of_lt hind] at hstands'
  refine ⟨s', hreach, ?_⟩
  rw [valueTokens]
  simpa using hstands'.pop (by omega)

/-- A list stands as far out as its key where it starts on the next line, and two columns further in
where it starts on this one. -/
theorem lexes_list {d : Datum} {ds : List Datum} (hds : ∀ e ∈ d :: ds, Lexes e) :
    Lexes (.list (d :: ds)) := by
  intro simple s column i j outs toks next hat hlt hcolumn hj hnext
  have hfresh (indent : ℕ) : Fresh (itemsText indent (d :: ds) ++ (spaces j ++ next)) := by
    cases ds <;> exact fresh_cons (by decide)
  cases simple with
  | true =>
      -- no sequence starts here: its items stand in the column of the key above them
      have hstands : s.Stands true (itemsText i (d :: ds) ++ (spaces j ++ next)) i outs i toks := by
        refine hat.stands_newline (hat.fades _) (hfresh i) (hat.rest.trans ?_)
        change '\n' :: (spaces i ++ itemsText i (d :: ds)) ++ _ = _
        simp
      obtain ⟨s', hreach, hstands'⟩ := items_lexed hds hstands (Int.le_refl _) hj hnext
      rw [Lexer.opened_self, Lexer.openings_self, List.append_nil] at hstands'
      exact ⟨s', hreach, hstands'⟩
  | false =>
      have hstands := hat.stands_spaces (k := 1) (hat.fades _) (hfresh (i + 2)) hat.rest
      rw [hat.allowed, hat.column, hcolumn rfl] at hstands
      have hind : (i : ℤ) < (i + 2 : ℕ) := by omega
      obtain ⟨s', hreach, hstands'⟩ := items_lexed hds hstands (Int.le_of_lt hind) (by omega) hnext
      rw [opened_of_lt hind, openings_of_lt hind] at hstands'
      refine ⟨s', hreach, ?_⟩
      rw [valueTokens]
      simpa using hstands'.pop (by omega)

/-- A value is lexed, whatever stands around it. -/
theorem lexes_of_texts {d : Datum} (h : d.Texts Solid) : Lexes d := by
  induction h with
  | text hs => exact lexes_text hs
  | @list l _ ih =>
      cases l with
      | nil => exact lexes_brackets (Or.inl ⟨rfl, rfl, rfl, rfl⟩) (fun _ _ => rfl) fun _ => rfl
      | cons d ds => exact lexes_list ih
  | @record l hnames _ ih =>
      cases l with
      | nil => exact lexes_brackets (Or.inr ⟨rfl, rfl, rfl, rfl⟩) (fun _ _ => rfl) fun _ => rfl
      | cons m ms => exact lexes_record hnames ih

/-! ### Characters -/

theorem isAllowed_of_isPrintable {c : Char} (h : isPrintable c = true) : isAllowed c = true := by
  simp only [isPrintable, isAllowed, Bool.or_eq_true, Bool.and_eq_true, decide_eq_true_eq] at *
  omega

theorem isAllowed_scalarText {s : String} (h : Solid s) (indent : ℕ) :
    ∀ c ∈ scalarText indent s, isAllowed c = true := by
  rcases scalarText_cases h indent with ⟨-, htext, -⟩ | ⟨-, htext⟩
  · rw [htext]
    exact fun c hc => isAllowed_of_isPrintable (h c hc).1
  · rw [htext, List.forall_mem_cons, List.forall_mem_append, List.forall_mem_singleton]
    refine ⟨by decide, fun c hc => ?_, by decide⟩
    obtain ⟨a, ha, hdoubled⟩ := List.mem_flatMap.1 hc
    obtain rfl : c = a := by
      rw [doubled] at hdoubled
      split at hdoubled <;> simpa using hdoubled
    exact isAllowed_of_isPrintable (h c ha).1

theorem isAllowed_spaces (k : ℕ) : ∀ c ∈ spaces k, isAllowed c = true := by
  intro c hc
  rw [List.eq_of_mem_replicate hc]
  rfl

theorem isAllowed_keyText {k : String} (hk : Solid k) (indent : ℕ) :
    ∀ c ∈ keyText indent k, isAllowed c = true := by
  have hscalar := isAllowed_scalarText hk (indent + 2)
  rw [keyText, endLine_scalarText hk]
  have hcolon : ∀ c ∈ [':'], isAllowed c = true := List.all_eq_true.1 (by decide)
  split
  · exact List.forall_mem_append.2 ⟨hscalar, hcolon⟩
  · have hopen : ∀ c ∈ ['?', ' '], isAllowed c = true := List.all_eq_true.1 (by decide)
    have hbreak : ∀ c ∈ ['\n'], isAllowed c = true := List.all_eq_true.1 (by decide)
    have hline := List.forall_mem_append.2 ⟨hscalar, hbreak⟩
    exact List.forall_mem_append.2 ⟨List.forall_mem_append.2
      ⟨List.forall_mem_append.2 ⟨hopen, hline⟩, isAllowed_spaces _⟩, hcolon⟩

theorem isAllowed_fieldsText {l : List (String × Datum)} (indent : ℕ)
    (hnames : ∀ f ∈ l, Solid f.1)
    (hl : ∀ f ∈ l, ∀ i simple, ∀ c ∈ valueText i simple f.2, isAllowed c = true) :
    ∀ c ∈ fieldsText indent l, isAllowed c = true := by
  induction l with
  | nil => exact fun c hc => (nomatch hc)
  | cons m l ih =>
      rw [List.forall_mem_cons] at hnames hl
      have hfield := List.forall_mem_append.2
        ⟨isAllowed_keyText hnames.1 indent, hl.1 indent (isSimpleKey m.1)⟩
      cases l with
      | nil =>
          rw [fieldsText, List.append_nil]
          exact hfield
      | cons n l =>
          rw [fieldsText]
          exact List.forall_mem_append.2
            ⟨hfield, List.forall_mem_append.2 ⟨isAllowed_spaces _, ih hnames.2 hl.2⟩⟩

theorem isAllowed_itemsText {l : List Datum} (indent : ℕ)
    (hl : ∀ d ∈ l, ∀ i simple, ∀ c ∈ valueText i simple d, isAllowed c = true) :
    ∀ c ∈ itemsText indent l, isAllowed c = true := by
  induction l with
  | nil => exact fun c hc => (nomatch hc)
  | cons d l ih =>
      rw [List.forall_mem_cons] at hl
      have hitem : ∀ c ∈ '-' :: itemText indent d, isAllowed c = true := by
        rw [itemText_eq_valueText]
        exact List.forall_mem_cons.2 ⟨by decide, hl.1 indent false⟩
      cases l with
      | nil =>
          rw [itemsText, List.append_nil]
          exact hitem
      | cons e l =>
          rw [itemsText]
          exact List.forall_mem_append.2
            ⟨hitem, List.forall_mem_append.2 ⟨isAllowed_spaces _, ih hl.2⟩⟩

/-- Only characters that a text may hold are written. -/
theorem isAllowed_valueText {d : Datum} (h : d.Texts Solid) :
    ∀ i simple, ∀ c ∈ valueText i simple d, isAllowed c = true := by
  induction h with
  | @text s hs =>
      intro i simple
      change ∀ c ∈ ' ' :: endLine (scalarText (i + 2) s), isAllowed c = true
      rw [endLine_scalarText hs, List.forall_mem_cons, List.forall_mem_append]
      exact ⟨by decide, isAllowed_scalarText hs _, List.all_eq_true.1 (by decide)⟩
  | @list l _ ih =>
      intro i simple
      cases l with
      | nil => exact List.all_eq_true.1 (by decide : [' ', '[', ']', '\n'].all isAllowed = true)
      | cons d ds =>
          cases simple with
          | true =>
              exact List.forall_mem_cons.2 ⟨by decide, List.forall_mem_append.2
                ⟨isAllowed_spaces _, isAllowed_itemsText _ ih⟩⟩
          | false => exact List.forall_mem_cons.2 ⟨by decide, isAllowed_itemsText _ ih⟩
  | @record l hnames _ ih =>
      intro i simple
      cases l with
      | nil =>
          exact List.all_eq_true.1 (by decide : [' ', '\x7b', '\x7d', '\n'].all isAllowed = true)
      | cons m ms =>
          cases simple with
          | true =>
              exact List.forall_mem_cons.2 ⟨by decide, List.forall_mem_append.2
                ⟨isAllowed_spaces _, isAllowed_fieldsText _ hnames ih⟩⟩
          | false => exact List.forall_mem_cons.2 ⟨by decide, isAllowed_fieldsText _ hnames ih⟩

/-! ### Records -/

/-- At its end, a text with one mapping is finished, and the mapping with it. -/
theorem run_of_stands {s : Lexer} {toks : List Token} {n : ℕ}
    (h : s.Stands true [] 0 [-1] 0 toks) :
    ∃ u, Lexer.run (n + 2) s = some u ∧ u.tokens = (toks ++ [Token.blockEnd]).toArray := by
  obtain ⟨u, hat, hstep⟩ := h.step_nil (Int.le_refl _)
  obtain ⟨key, hkeys, hidle⟩ := hat.idle
  have hdedent : u.dedentTo (-1) = { u with
      indents := [], indent := -1, tokens := (toks ++ [Token.blockEnd]).toArray } := by
    rw [Lexer.dedentTo, if_neg (by simp [hat.flow]), hat.indents, hat.indent, hat.tokens]
    simp [Lexer.dedentFrom]
  let v : Lexer := { u with
    indents := [], indent := -1, tokens := (toks ++ [Token.blockEnd]).toArray
    keys := [{}], keyAllowed := false, done := true }
  have hfinish : u.finish = some v := by
    rw [Lexer.finish, Lexer.closeBlocks, hdedent]
    simp [Lexer.dropKey, hkeys, hidle, Lexer.allowKey, v]
  refine ⟨v, ?_, rfl⟩
  rw [Lexer.run, h.1, if_neg Bool.false_ne_true, hstep, hfinish]
  rfl

/-- **The tokens of a record are those of its members**, in one mapping. -/
theorem scan_render {m : String × Datum} {ms : List (String × Datum)}
    (h : (Datum.record (m :: ms)).Texts Solid) :
    Token.scan (render (.record (m :: ms))) = some (valueTokens false (.record (m :: ms))) := by
  obtain _ | _ | ⟨hnames, hms⟩ := h
  have hfresh : Fresh (fieldsText 0 (m :: ms)) := by
    simpa using fresh_fieldsText (i := 0) (hnames m List.mem_cons_self) ms []
  have hallowed : (fieldsText 0 (m :: ms)).all isAllowed = true :=
    List.all_eq_true.2 (isAllowed_fieldsText 0 hnames fun f hf => isAllowed_valueText (hms f hf))
  let s₀ : Lexer := { cursor := { rest := fieldsText 0 (m :: ms) } }
  have hblock : s₀.Block [] (-1) [] := ⟨rfl, rfl, rfl, rfl, rfl⟩
  have hfades : s₀.Fades s₀.cursor.line := ⟨{}, rfl, fun h => absurd h (by decide)⟩
  have hstands : s₀.Stands true (fieldsText 0 (m :: ms) ++ (spaces 0 ++ [])) 0 [] (-1) [] := by
    simpa [spaces] using hblock.stands_spaces (k := 0) hfades hfresh rfl
  obtain ⟨s', hreach, hstands'⟩ := fields_lexed hnames (fun f hf => lexes_of_texts (hms f hf))
    hstands (by decide) (Nat.le_refl 0) fresh_nil
  obtain ⟨n, hn, hrun⟩ := hreach ((fieldsText 0 (m :: ms)).length + 2) (Nat.le_refl _)
  obtain ⟨n, rfl⟩ : ∃ k, n = k + 2 := ⟨n - 2, by omega⟩
  obtain ⟨u, hu, htokens⟩ := run_of_stands (n := n) hstands'
  have hmark : ∀ cs, fieldsText 0 (m :: ms) ≠ '\ufeff' :: cs := by
    intro cs heq
    exact (hfresh '\ufeff' (by rw [heq]; rfl)).2.2 rfl
  rw [Token.scan, render, String.toList_ofList]
  split
  case h_1 heq => exact absurd heq (hmark _)
  case h_2 =>
    rw [if_pos hallowed, hrun, hu, Option.map_some, htokens, openings_of_lt (by decide),
      valueTokens]
    rfl

end Groundwork.Yaml
