/-
How the lexer reads the tokens that the writer writes.

Each result starts where a token stands and ends behind it.  A key is known as such only at its
colon, so that a key and its colon are read in two steps of which only the second one says what the
first one has read.

Main definitions:

* `Groundwork.Yaml.Lexer.opened`, `Groundwork.Yaml.Lexer.openings` — the indentations and the token
  of a block collection that starts at a column, if one does.

Main results:

* `Groundwork.Yaml.Lexer.Stands.entry`, `Groundwork.Yaml.Lexer.Stands.question`,
  `Groundwork.Yaml.Lexer.Stands.colon` — the indicators;
* `Groundwork.Yaml.Lexer.Stands.simpleKey` — a key on one line with its colon;
* `Groundwork.Yaml.Lexer.Stands.scalar` — a scalar at the end of its line;
* `Groundwork.Yaml.Lexer.Stands.brackets` — an empty flow collection.
-/
import Groundwork.Proofs.Yaml.Lexing

set_option relaxedAutoImplicit false
set_option autoImplicit false

namespace Groundwork.Yaml.Lexer

/-! ### Indentations -/

/-- The indentations around a column after a block collection has started there, if it is further
in. -/
def opened (ind : ℤ) (column : ℕ) (outs : List ℤ) : List ℤ :=
  if ind < column then ind :: outs else outs

/-- The token of the block collection that starts at a column, if it is further in. -/
def openings (t : Token) (ind : ℤ) (column : ℕ) : List Token := if ind < column then [t] else []

theorem opened_self (column : ℕ) (outs : List ℤ) : opened column column outs = outs :=
  if_neg (Int.lt_irrefl _)

theorem openings_self (t : Token) (column : ℕ) : openings t column column = [] :=
  if_neg (Int.lt_irrefl _)

theorem insertIdx_append {α : Type} (l m : List α) (a : α) :
    (l ++ m).insertIdx l.length a = l ++ a :: m := by
  induction l with
  | nil => rfl
  | cons b l ih => simp [ih]

section Steps

variable {s : Lexer} {allowed : Bool} {c : Char} {rest more next : List Char} {column k : ℕ}
  {outs : List ℤ} {ind : ℤ} {toks before after : List Token} {t tok : Token}

theorem indentTo_frame (s : Lexer) (column : ℕ) (t : Token) (place : ℕ) :
    (s.indentTo column t place).cursor = s.cursor ∧
      (s.indentTo column t place).keyAllowed = s.keyAllowed ∧
      (s.indentTo column t place).keys = s.keys := by
  rw [indentTo]
  split <;> exact ⟨rfl, rfl, rfl⟩

theorem Block.indentTo (h : s.Block outs ind (before ++ after)) (hind : ind ≤ column) (t : Token) :
    (s.indentTo column t before.length).Block (opened ind column outs) column
      (before ++ (openings t ind column ++ after)) := by
  rw [Lexer.indentTo, opened, openings, h.flow, h.indent, h.indents, h.tokens,
    List.insertIdxIfInBounds_toArray, insertIdx_append]
  by_cases hlt : ind < column
  · simp only [hlt, decide_true, Bool.and_true, if_true]
    exact ⟨rfl, h.done, rfl, rfl, rfl⟩
  · have heq : ind = column := Int.le_antisymm hind (Int.not_lt.1 hlt)
    simp only [hlt, decide_false, Bool.and_false, if_false, Bool.false_eq_true]
    exact ⟨h.flow, h.done, h.indents, h.indent.trans heq, h.tokens⟩

/-- A block collection starts at an indicator, if it is further in. -/
theorem At.indentTo (h : s.At allowed rest column outs ind toks) (hind : ind ≤ column)
    (t : Token) :
    (s.indentTo s.cursor.column t s.tokens.size).At allowed rest column (opened ind column outs)
      column (toks ++ openings t ind column) := by
  obtain ⟨hcursor, hallowed, hkeys⟩ := indentTo_frame s column t s.tokens.size
  have hblock : s.Block outs ind (toks ++ []) := by
    rw [List.append_nil]
    exact h.toBlock
  have hsize : s.tokens.size = toks.length := by rw [h.tokens, List.size_toArray]
  have hindented := hblock.indentTo hind t
  rw [List.append_nil, ← hsize] at hindented
  rw [h.column]
  refine ⟨hindented, hcursor ▸ h.rest, hcursor ▸ h.column, hallowed.trans h.allowed, ?_⟩
  rw [hkeys]
  exact h.idle

theorem At.dropKey (h : s.At allowed rest column outs ind toks) :
    ∃ s', s.dropKey = some s' ∧ s'.At allowed rest column outs ind toks := by
  obtain ⟨k, hk, hidle⟩ := h.idle
  refine ⟨{ s with keys := [{}] }, by simp [Lexer.dropKey, hk, hidle], ?_⟩
  exact ⟨⟨h.flow, h.done, h.indents, h.indent, h.tokens⟩, h.rest, h.column, h.allowed, {}, rfl, rfl⟩

/-- A token of one character is read. -/
theorem At.take (h : s.At allowed (c :: more) column outs ind toks) (b : Bool) (tok : Token) :
    (((s.allowKey b).advance 1).push tok).At b more (column + 1) outs ind (toks ++ [tok]) := by
  have hrest : (s.cursor.advance 1).rest = more := by rw [Cursor.advance, h.rest]; rfl
  have hcolumn : (s.cursor.advance 1).column = column + 1 := congrArg (· + 1) h.column
  have htokens : s.tokens.push tok = (toks ++ [tok]).toArray := by
    rw [h.tokens, List.push_toArray]
  exact ⟨⟨h.flow, h.done, h.indents, h.indent, htokens⟩, hrest, hcolumn, rfl, h.idle⟩

/-- A step that reads the token at which the lexer stands. -/
theorem Stands.reaches {P : Lexer → Prop} (h : s.Stands allowed (c :: more) column outs ind toks)
    (hind : ind ≤ column) (htoken : ∀ u : Lexer, u.At allowed (c :: more) column outs ind toks →
      ∃ s', u.token c more = some s' ∧ s'.cursor.rest.length ≤ more.length ∧ P s') :
    ∃ s', s.Reaches s' ∧ P s' := by
  obtain ⟨u, hat, hstep⟩ := h.step_cons hind
  obtain ⟨s', hs', hlength, hP⟩ := htoken u hat
  have hlt : (c :: more).length ≤ s.cursor.rest.length := h.2.1
  rw [List.length_cons] at hlt
  exact ⟨s', .of_step h.1 (hstep.trans hs') (by omega), hP⟩

/-! ### Indicators -/

/-- No mark between documents starts with this character. -/
theorem atDocumentMark_of_ne {c : Cursor} {a : Char} {cs : List Char} (hrest : c.rest = a :: cs)
    (hdash : a ≠ '-') (hdot : a ≠ '.') : c.atDocumentMark = false := by
  simp [Cursor.atDocumentMark, hrest, hdash, hdot]

/-- The indicator of an item starts a sequence, if it is further in than what is around it. -/
theorem Stands.entry (h : s.Stands true ('-' :: ' ' :: more) column outs ind toks)
    (hind : ind ≤ column) : ∃ s', s.Reaches s' ∧ s'.At true (' ' :: more) (column + 1)
      (opened ind column outs) column (toks ++ openings .blockSequence ind column ++
        [.blockEntry]) := by
  refine h.reaches hind fun u hat => ?_
  obtain ⟨s', hs', hat'⟩ := (hat.indentTo hind .blockSequence).dropKey
  have hmark : u.cursor.atDocumentMark = false := by
    simp [Cursor.atDocumentMark, hat.rest]
  have hnext := hat'.take true .blockEntry
  refine ⟨_, ?_, Nat.le_of_eq (congrArg List.length hnext.rest), hnext⟩
  simp [token, hmark, endsWord, isSpace, isBlank, blockEntry, hat.flow, hat.allowed, hs']

/-- The indicator of a key starts a mapping, if it is further in than what is around it. -/
theorem Stands.question (h : s.Stands true ('?' :: ' ' :: more) column outs ind toks)
    (hind : ind ≤ column) : ∃ s', s.Reaches s' ∧ s'.At true (' ' :: more) (column + 1)
      (opened ind column outs) column (toks ++ openings .blockMapping ind column ++
        [.key]) := by
  refine h.reaches hind fun u hat => ?_
  have hindent := hat.indentTo hind .blockMapping
  obtain ⟨s', hs', hat'⟩ := hindent.dropKey
  have hmark := atDocumentMark_of_ne hat.rest (by decide) (by decide)
  have hnext := hat'.take true .key
  refine ⟨_, ?_, Nat.le_of_eq (congrArg List.length hnext.rest), hnext⟩
  simp [token, hmark, endsWord, isSpace, isBlank, key, hat.flow, hat.allowed, hs', hindent.flow]

/-- The indicator of a value. -/
theorem Stands.colon (h : s.Stands true (':' :: more) column outs column toks)
    (hmore : endsWord more = true) : ∃ s', s.Reaches s' ∧ s'.At true more (column + 1)
      outs column (toks ++ [.value]) := by
  refine h.reaches (Int.le_refl _) fun u hat => ?_
  obtain ⟨k, hk, hidle⟩ := hat.idle
  have hmark := atDocumentMark_of_ne hat.rest (by decide) (by decide)
  have hindent := hat.indentTo (Int.le_refl _) .blockMapping
  have hnext := hindent.take true .value
  rw [opened_self, openings_self, List.append_nil] at hnext
  refine ⟨_, ?_, Nat.le_of_eq (congrArg List.length hnext.rest), hnext⟩
  simp [token, hmark, hmore, value, hk, hidle, hat.flow, hat.allowed, hindent.flow]

/-! ### Scalars -/

/-- The token of a text as it is written. -/
def scalarToken (text : String) : Token := .scalar text (decide (styleOf text = .plain))

/-- A solid text is written either as a word without quotes or between single quotes. -/
theorem scalarToken_cases {text : String} (htext : Solid text) (i : ℕ) :
    (∃ ch cs, scalarText i text = ch :: cs ∧ (∀ c ∈ ch :: cs, isSpace c = false) ∧ Bare ch cs ∧
        scalarToken text = .scalar (String.ofList (ch :: cs)) true) ∨
      (scalarText i text = '\'' :: (text.toList.flatMap doubled ++ ['\'']) ∧
        scalarToken text = .scalar text false) := by
  rcases scalarText_cases htext i with ⟨hstyle, hscalar, ch, cs, htoList, hbare⟩ | ⟨hstyle, hscalar⟩
  · refine Or.inl ⟨ch, cs, hscalar.trans htoList, fun c hc => (htext c (htoList ▸ hc)).2, hbare, ?_⟩
    rw [scalarToken, hstyle, ← htoList, String.ofList_toList]
    rfl
  · refine Or.inr ⟨hscalar, ?_⟩
    rw [scalarToken, hstyle]
    rfl

/-- What starts with a quote is read as a quoted scalar. -/
theorem token_of_quote {cs : List Char} (hflow : s.flow = 0) (hrest : s.cursor.rest = '\'' :: cs) :
    s.token '\'' cs = s.quotedScalar true := by
  have hmark := atDocumentMark_of_ne hrest (by decide) (by decide)
  simp [token, hmark, hflow]

/-- What starts like a word without quotes is read as one. -/
theorem token_of_bare {ch : Char} {cs : List Char} (hflow : s.flow = 0)
    (hmark : s.cursor.atDocumentMark = false) (hspace : isSpace ch = false) (hbare : Bare ch cs)
    (rest : List Char) : s.token ch (cs ++ rest) = s.plainScalar := by
  have hword : ch = '?' ∨ ch = ':' ∨ ch = '-' → endsWord (cs ++ rest) = false :=
    fun h => endsWord_append (hbare.word h) rest
  have hplain := notMem_of_isIndicator hbare.indicator
  simp only [List.mem_cons, List.not_mem_nil, or_false, not_or] at hplain
  have hstarts : startsPlain false ch (cs ++ rest) = true := by
    by_cases hdash : ch = '-'
    · have hend := hword (Or.inr (Or.inr hdash))
      cases hrest : cs ++ rest with
      | nil => simp [startsPlain, hdash]
      | cons a rest =>
          rw [hrest] at hend
          simp [startsPlain, hdash, isBlank_of_isSpace_eq_false hend]
    · by_cases hmarked : ch = '?' ∨ ch = ':'
      · have hend := hword (hmarked.imp_right Or.inl)
        simp [startsPlain, hmarked, hend]
      · rw [not_or] at hmarked
        simp [startsPlain, String.contains_char_eq, hspace, hdash, hmarked, hplain]
  have hmarked (a : Char) (ha : a = '?' ∨ a = ':' ∨ a = '-') :
      (decide (ch = a) && endsWord (cs ++ rest)) = false := by
    by_cases hch : ch = a
    · rw [hword (hch ▸ ha), Bool.and_false]
    · rw [decide_eq_false hch, Bool.false_and]
  simp [token, hflow, hmark, hplain, hmarked, hstarts]

/-- Where a key may start, it is pending from there on. -/
theorem At.saveKey (h : s.At true rest column outs ind toks) :
    s.saveKey = some { s with keys := [{
      possible := true
      required := decide (ind = column)
      token := toks.length
      index := s.cursor.index
      line := s.cursor.line
      column := column }] } := by
  obtain ⟨k, hk, hidle⟩ := h.idle
  simp [Lexer.saveKey, Lexer.dropKey, hk, hidle, h.allowed, h.flow, h.indent, h.column, h.tokens]

/-- Further in than what is around it, a key is not required. -/
theorem At.saveKey_inner (h : s.At allowed rest column outs ind toks) (hind : ind < column) :
    ∃ key, s.saveKey = some { s with keys := [key] } ∧ (key.possible = true →
      key.required = false ∧ key.line = s.cursor.line ∧ key.index = s.cursor.index) := by
  cases hallowed : allowed with
  | true =>
      subst hallowed
      refine ⟨_, h.saveKey, fun _ => ⟨?_, rfl, rfl⟩⟩
      exact decide_eq_false (Int.ne_of_lt hind)
  | false =>
      obtain ⟨k, hk, hidle⟩ := h.idle
      refine ⟨k, ?_, fun hpossible => absurd hpossible (by simp [hidle])⟩
      rw [Lexer.saveKey, if_neg (by simp [h.allowed, hallowed]), ← hk]

/-- It may be given up at the end of the line. -/
theorem fades_of_saved {key : KeyStart} {line : ℕ} (hkeys : s.keys = [key])
    (h : key.possible = true → key.required = false ∧ key.line = line ∧ key.index = k) :
    s.Fades (line + 1) := by
  refine ⟨key, hkeys, fun hpossible => ?_⟩
  obtain ⟨hrequired, hline, -⟩ := h hpossible
  exact ⟨hrequired, hline ▸ Nat.lt_succ_self _⟩

/-- A scalar at the end of its line, further in than what is around it. -/
theorem Stands.scalar {text : String} {i : ℕ}
    (h : s.Stands allowed (scalarText i text ++ '\n' :: (spaces k ++ next)) column outs ind toks)
    (htext : Solid text) (hind : ind < column) (hk : (k : ℤ) ≤ ind) (hnext : Fresh next) :
    ∃ s', s.Reaches s' ∧ s'.Stands true next k outs ind (toks ++ [scalarToken text]) := by
  have hle : ind ≤ column := Int.le_of_lt hind
  rcases scalarToken_cases htext i with ⟨ch, cs, hscalar, hsolid, hbare, htoken⟩ | ⟨hscalar, htoken⟩
  · rw [hscalar, List.cons_append] at h
    refine h.reaches hle fun u hat => ?_
    obtain ⟨key, hkey, hsaved⟩ := hat.saveKey_inner hind
    have hmark := (Scalar.starts_of_bare hbare (by decide) hat.rest).1
    have hlimit : k < (ind + 1).toNat := by omega
    obtain ⟨c', hplain, hrest, hline, hcolumn⟩ := Scalar.plain_line hsolid hbare hnext hat.rest
      hlimit
    let s' : Lexer := { u with
      keys := [key], keyAllowed := true, cursor := c', tokens := u.tokens.push (scalarToken text) }
    have hblock : s'.Block outs ind (toks ++ [scalarToken text]) :=
      ⟨hat.flow, hat.done, hat.indents, hat.indent, by rw [← List.push_toArray, ← hat.tokens]⟩
    have hstands := hblock.stands_spaces (k := 0) (hline ▸ fades_of_saved rfl hsaved) hnext hrest
    refine ⟨s', ?_, ?_, ?_⟩
    · rw [token_of_bare hat.flow hmark (hsolid ch List.mem_cons_self) hbare, plainScalar, hkey]
      simp [hat.flow, hat.indent, hplain, htoken, s', push, allowKey]
    · simp [s', hrest]
      omega
    · rwa [Nat.add_zero, hcolumn] at hstands
  · rw [hscalar, List.cons_append] at h
    refine h.reaches hle fun u hat => ?_
    obtain ⟨key, hkey, hsaved⟩ := hat.saveKey_inner hind
    have hquoted := Scalar.quoted_word htext (c := u.cursor) hat.rest (by simp)
    have hrest := Cursor.rest_advance (w := '\'' :: (text.toList.flatMap doubled ++ ['\'']))
      hat.rest
    let s' : Lexer := { u with
      keys := [key], keyAllowed := false
      cursor := u.cursor.advance ('\'' :: (text.toList.flatMap doubled ++ ['\''])).length
      tokens := u.tokens.push (scalarToken text) }
    have hblock : s'.Block outs ind (toks ++ [scalarToken text]) :=
      ⟨hat.flow, hat.done, hat.indents, hat.indent, by rw [← List.push_toArray, ← hat.tokens]⟩
    refine ⟨s', ?_, ?_, hblock.stands_newline (fades_of_saved rfl hsaved) hnext hrest⟩
    · rw [token_of_quote hat.flow hat.rest, quotedScalar, hkey]
      simp [hquoted, htoken, s', push, allowKey]
    · rw [show s'.cursor.rest = _ from hrest, List.length_append]
      omega

/-! ### Keys -/

/-- A key is pending that started on this line, at this column, before the tokens `after`. -/
structure Pending (s : Lexer) (start : ℕ) (outs : List ℤ) (ind : ℤ) (before after : List Token) :
    Prop extends Block s outs ind (before ++ after) where
  key : ∃ k, s.keys = [k] ∧ k.possible = true ∧ k.token = before.length ∧ k.column = start ∧
    k.line = s.cursor.line ∧ s.cursor.index ≤ k.index + 1024
  start_lt : start < s.cursor.column

/-- A scalar before a colon is read. -/
theorem At.token_key {text : String} {i : ℕ} {cs : List Char}
    (h : s.At true (c :: cs) column outs ind toks)
    (hcs : c :: cs = scalarText i text ++ ':' :: more) (htext : Solid text)
    (hmore : endsWord more = true) :
    s.token c cs = some { s with
      cursor := s.cursor.advance (scalarText i text).length
      tokens := s.tokens.push (scalarToken text)
      keyAllowed := false
      keys := [{
        possible := true
        required := decide (ind = column)
        token := toks.length
        index := s.cursor.index
        line := s.cursor.line
        column := column }] } := by
  have hrest := h.rest.trans hcs
  rcases scalarToken_cases htext i with ⟨a, as, hscalar, hsolid, hbare, htoken⟩ | ⟨hscalar, htoken⟩
  · rw [hscalar] at hcs hrest ⊢
    rw [List.cons_append] at hcs
    obtain ⟨rfl, rfl⟩ := List.cons.inj hcs
    have hmark := (Scalar.starts_of_bare hbare (by decide) hrest).1
    have hplain := Scalar.plain_key hsolid hbare (s.indent + 1).toNat hrest hmore
    rw [token_of_bare h.flow hmark (hsolid c List.mem_cons_self) hbare, plainScalar, h.saveKey,
      htoken]
    simp only [Option.bind_eq_bind, Option.bind_some, h.flow, Nat.lt_irrefl, decide_false, hplain]
    rfl
  · rw [hscalar] at hcs hrest ⊢
    rw [List.cons_append] at hcs
    obtain ⟨rfl, rfl⟩ := List.cons.inj hcs
    have hquoted := Scalar.quoted_word htext (c := s.cursor) hrest (by simp)
    rw [token_of_quote h.flow h.rest, quotedScalar, h.saveKey, htoken]
    simp only [Option.bind_eq_bind, Option.bind_some, hquoted]
    rfl

/-- Behind it, a key is pending. -/
theorem At.pending {text : String} {i : ℕ} {cs : List Char}
    (h : s.At true (c :: cs) column outs ind toks)
    (hcs : c :: cs = scalarText i text ++ ':' :: more) (htext : Solid text)
    (hkey : isSimpleKey text = true) (hmore : endsWord more = true) :
    ∃ s', s.token c cs = some s' ∧ s'.cursor.rest = ':' :: more ∧
      s'.Pending column outs ind toks [scalarToken text] := by
  refine ⟨_, h.token_key hcs htext hmore, Cursor.rest_advance (h.rest.trans hcs), ?_, ?_, ?_⟩
  · exact ⟨h.flow, h.done, h.indents, h.indent, by rw [← List.push_toArray, ← h.tokens]⟩
  · have hlength := length_scalarText_le htext hkey i
    refine ⟨_, rfl, rfl, rfl, rfl, rfl, ?_⟩
    exact Nat.add_le_add_left (Nat.le_trans hlength (by decide)) _
  · have hpos : 0 < (scalarText i text).length := by
      obtain ⟨a, as, hcons⟩ := exists_cons_scalarText htext i
      rw [hcons]
      exact Nat.succ_pos _
    exact h.column ▸ Nat.lt_add_of_pos_right hpos

/-- A colon after a pending key is read; the key and the mapping that it may start are put in
before it. -/
theorem Pending.colon (h : s.Pending column outs ind before after) (hind : ind ≤ column)
    (hrest : s.cursor.rest = ':' :: more) (hmore : endsWord more = true) :
    ∃ s', s.Reaches s' ∧ s'.At false more (s.cursor.column + 1) (opened ind column outs) column
      (before ++ openings .blockMapping ind column ++ .key :: after ++ [.value]) := by
  obtain ⟨key, hkeys, hpossible, htoken, hcolumn, hline, hindex⟩ := h.key
  -- the token of the key goes before the scalar that was read for it, and that of a mapping that
  -- starts with it before both
  let v : Lexer := { s with
    tokens := s.tokens.insertIdxIfInBounds before.length .key
    keys := [{}] }
  have hblock : v.Block outs ind (before ++ .key :: after) := by
    refine ⟨h.flow, h.done, h.indents, h.indent, ?_⟩
    rw [← insertIdx_append, ← List.insertIdxIfInBounds_toArray, ← h.tokens]
  obtain ⟨hcursor, hallowed, hkeys'⟩ := indentTo_frame v column .blockMapping before.length
  have hat : (v.indentTo column .blockMapping before.length).At s.keyAllowed (':' :: more)
      s.cursor.column (opened ind column outs) column
      (before ++ (openings .blockMapping ind column ++ .key :: after)) :=
    ⟨hblock.indentTo hind .blockMapping, hcursor ▸ hrest, hcursor ▸ rfl, hallowed, {}, hkeys', rfl⟩
  have hnext := hat.take false .value
  have hvalue : s.value = some
      ((((v.indentTo column .blockMapping before.length).allowKey false).advance 1).push
        .value) := by
    rw [value, hkeys]
    simp only [hpossible, if_true, htoken, hcolumn, v]
  have hsettle : s.toNextToken (s.cursor.rest.length + 1) = s :=
    toNextToken_spaces (k := 0) (fresh_cons (by decide)) hrest
  have hdrop : s.dropStaleKeys = some s := by
    refine dropStaleKeys_eq_self ?_
    rw [hkeys, List.forall_mem_singleton]
    omega
  have hdedent : s.dedentTo s.cursor.column = s := by
    have hlt := h.start_lt
    rw [dedentTo, if_neg (by simp [h.flow]), dedentFrom_of_le (by rw [h.indent]; omega)]
  have hmark := atDocumentMark_of_ne hrest (by decide) (by decide)
  have hstep : s.step = s.value := by
    rw [step, hsettle, hdrop]
    simp only [Option.bind_eq_bind, Option.bind_some, hdedent, hrest]
    simp [token, hmark, hmore, h.flow]
  refine ⟨_, .of_step h.done (hstep.trans hvalue) ?_, by simpa using hnext⟩
  rw [hnext.rest, hrest]
  exact Nat.lt_succ_self _

/-- A key on one line with its colon starts a mapping, if it is further in than what is around
it. -/
theorem Stands.simpleKey {text : String} {i : ℕ}
    (h : s.Stands true (scalarText i text ++ ':' :: more) column outs ind toks)
    (hind : ind ≤ column) (htext : Solid text) (hkey : isSimpleKey text = true)
    (hmore : endsWord more = true) :
    ∃ s' next, s.Reaches s' ∧ column < next ∧ s'.At false more next (opened ind column outs) column
      (toks ++ openings .blockMapping ind column ++ [.key, scalarToken text, .value]) := by
  obtain ⟨c, cs, hcs⟩ := List.exists_cons_of_ne_nil
    (List.append_ne_nil_of_right_ne_nil (scalarText i text) (List.cons_ne_nil ':' more))
  rw [hcs] at h
  have hlength : (':' :: more).length ≤ cs.length := by
    obtain ⟨a, as, hcons⟩ := exists_cons_scalarText htext i
    rw [hcons, List.cons_append] at hcs
    rw [← (List.cons.inj hcs).2, List.length_append]
    omega
  obtain ⟨t, hreach, hrest, hpending⟩ := h.reaches hind (P := fun t =>
    t.cursor.rest = ':' :: more ∧ t.Pending column outs ind toks [scalarToken text]) fun u hat => by
      obtain ⟨t, htoken, hrest, hpending⟩ := hat.pending hcs.symm htext hkey hmore
      exact ⟨t, htoken, hrest ▸ hlength, hrest, hpending⟩
  obtain ⟨s', hreach', hat⟩ := hpending.colon hind hrest hmore
  refine ⟨s', _, hreach.trans hreach', Nat.lt_succ_of_lt hpending.start_lt, ?_⟩
  simpa using hat

/-! ### Empty collections -/

/-- The brackets of a flow collection with nothing in it, and their tokens. -/
def IsBrackets (l r : Char) (start stop : Token) : Prop :=
  (l = '[' ∧ r = ']' ∧ start = .flowSequence ∧ stop = .flowSequenceEnd) ∨
    (l = '\x7b' ∧ r = '\x7d' ∧ start = .flowMapping ∧ stop = .flowMappingEnd)

/-- An empty flow collection at the end of its line, further in than what is around it. -/
theorem Stands.brackets {l r : Char} {start stop : Token} (hlr : IsBrackets l r start stop)
    (h : s.Stands allowed (l :: r :: '\n' :: (spaces k ++ next)) column outs ind toks)
    (hind : ind < column) (hnext : Fresh next) :
    ∃ s', s.Reaches s' ∧ s'.Stands true next k outs ind (toks ++ [start, stop]) := by
  obtain ⟨u, hat, hstep⟩ := h.step_cons (Int.le_of_lt hind)
  obtain ⟨key, hkey, hsaved⟩ := hat.saveKey_inner hind
  let t : Lexer := { u with
    cursor := u.cursor.advance 1
    tokens := u.tokens.push start
    flow := 1
    keyAllowed := true
    keys := [{}, key] }
  have hopen : s.step = some t := by
    have hmark : u.cursor.atDocumentMark = false := by
      rcases hlr with ⟨rfl, -⟩ | ⟨rfl, -⟩ <;>
        exact atDocumentMark_of_ne hat.rest (by decide) (by decide)
    rw [hstep]
    rcases hlr with ⟨rfl, -, rfl, -⟩ | ⟨rfl, -, rfl, -⟩ <;>
      simp [token, hmark, openFlow, hkey, hat.flow, t, allowKey, Lexer.advance, push]
  have hrest : t.cursor.rest = r :: '\n' :: (spaces k ++ next) :=
    Cursor.rest_advance (w := [l]) hat.rest
  have hsettle : t.toNextToken (t.cursor.rest.length + 1) = t := by
    refine toNextToken_spaces (k := 0) (fresh_cons ?_) hrest
    rcases hlr with ⟨-, rfl, -⟩ | ⟨-, rfl, -⟩ <;> decide
  have hdrop : t.dropStaleKeys = some t := by
    refine dropStaleKeys_eq_self ?_
    rw [List.forall_mem_cons, List.forall_mem_singleton]
    refine ⟨fun h => (nomatch h), fun hpossible => ?_⟩
    obtain ⟨-, hline, hindex⟩ := hsaved hpossible
    rw [hline, hindex]
    exact ⟨Nat.le_refl _, Nat.add_le_add_left (by decide) _⟩
  let s' : Lexer := { u with
    cursor := t.cursor.advance 1
    tokens := t.tokens.push stop
    keyAllowed := false
    keys := [key] }
  have hclose : t.step = some s' := by
    have hmark : t.cursor.atDocumentMark = false := by
      rcases hlr with ⟨-, rfl, -⟩ | ⟨-, rfl, -⟩ <;>
        exact atDocumentMark_of_ne hrest (by decide) (by decide)
    have hdedent : t.dedentTo t.cursor.column = t := if_pos Nat.one_pos
    rw [step, hsettle, hdrop]
    simp only [Option.bind_eq_bind, Option.bind_some, hdedent, hrest]
    rcases hlr with ⟨-, rfl, -, rfl⟩ | ⟨-, rfl, -, rfl⟩ <;>
      simp [token, hmark, closeFlow, dropKey, t, s', allowKey, Lexer.advance, push, hat.flow]
  have hrest' : s'.cursor.rest = '\n' :: (spaces k ++ next) :=
    Cursor.rest_advance (w := [r]) hrest
  have hblock : s'.Block outs ind (toks ++ [start, stop]) := by
    refine ⟨hat.flow, hat.done, hat.indents, hat.indent, ?_⟩
    simp [s', t, hat.tokens]
  refine ⟨s', (Reaches.of_step h.1 hopen ?_).trans (.of_step hat.done hclose ?_),
    hblock.stands_newline (fades_of_saved rfl hsaved) hnext hrest'⟩
  · have hle := h.2.1
    rw [hrest]
    simp only [List.length_cons] at hle ⊢
    omega
  · rw [hrest, hrest']
    exact Nat.lt_succ_self _

end Steps

end Groundwork.Yaml.Lexer
