/-
The lexer between two tokens.

What the writer puts between two tokens is a space, or a line break and the indentation of the next
line.  Where a token starts, the lexer has ended the block collections that are indented further,
and no key is pending.

Main definitions:

* `Groundwork.Yaml.Lexer.Block` — the lexer outside of flow collections, with its indentations and
  tokens;
* `Groundwork.Yaml.Lexer.At` — the lexer where no key is pending;
* `Groundwork.Yaml.Lexer.Stands` — the lexer as it will be where the next token starts;
* `Groundwork.Yaml.Lexer.Reaches` — one state leads to another.

Main results:

* `Groundwork.Yaml.Lexer.Stands.step_cons`, `Groundwork.Yaml.Lexer.Stands.step_nil` — the next
  token, and the end of the text;
* `Groundwork.Yaml.Lexer.Stands.pop` — a block collection that ends before the next token.
-/
import Groundwork.Proofs.Yaml.Words
import Groundwork.Yaml.Token
import Mathlib.Data.Int.Notation

set_option relaxedAutoImplicit false
set_option autoImplicit false

namespace Groundwork.Yaml.Lexer

/-! ### Runs -/

/-- The run from one state goes through the other. -/
def Reaches (s s' : Lexer) : Prop :=
  ∀ n, s.cursor.rest.length + 2 ≤ n → ∃ m, s'.cursor.rest.length + 2 ≤ m ∧ run n s = run m s'

theorem Reaches.trans {s t u : Lexer} (hst : s.Reaches t) (htu : t.Reaches u) : s.Reaches u := by
  intro n hn
  obtain ⟨m, hm, hrun⟩ := hst n hn
  obtain ⟨k, hk, hrun'⟩ := htu m hm
  exact ⟨k, hk, hrun.trans hrun'⟩

/-- A step that reads something. -/
theorem Reaches.of_step {s s' : Lexer} (hdone : s.done = false) (hstep : s.step = some s')
    (hlt : s'.cursor.rest.length < s.cursor.rest.length) : s.Reaches s' := by
  intro n hn
  obtain ⟨n, rfl⟩ : ∃ m, n = m + 1 := ⟨n - 1, by omega⟩
  refine ⟨n, by omega, ?_⟩
  rw [run, hdone, if_neg Bool.false_ne_true, hstep]
  rfl

/-! ### States -/

/-- The lexer is outside of flow collections, with these indentations, and has read these tokens. -/
structure Block (s : Lexer) (outs : List ℤ) (ind : ℤ) (toks : List Token) : Prop where
  flow : s.flow = 0
  done : s.done = false
  indents : s.indents = outs
  indent : s.indent = ind
  tokens : s.tokens = toks.toArray

/-- If a key is pending, it started before this line and may be given up. -/
def Fades (s : Lexer) (line : ℕ) : Prop :=
  ∃ k, s.keys = [k] ∧ (k.possible = true → k.required = false ∧ k.line < line)

/-- The lexer has this text before it, at this column, and no key is pending. -/
structure At (s : Lexer) (allowed : Bool) (rest : List Char) (column : ℕ) (outs : List ℤ) (ind : ℤ)
    (toks : List Token) : Prop extends Block s outs ind toks where
  rest : s.cursor.rest = rest
  column : s.cursor.column = column
  allowed : s.keyAllowed = allowed
  idle : ∃ k, s.keys = [k] ∧ k.possible = false

/-- Where the next token starts, the lexer will have this text before it, at this column.  The
indentations and tokens are given as they are before the block collections end that end there. -/
def Stands (s : Lexer) (allowed : Bool) (rest : List Char) (column : ℕ) (outs : List ℤ) (ind : ℤ)
    (toks : List Token) : Prop :=
  s.done = false ∧ rest.length ≤ s.cursor.rest.length ∧ ∃ u outs' ind' toks',
    (s.toNextToken (s.cursor.rest.length + 1)).dropStaleKeys = some u ∧
      u.At allowed rest column outs' ind' toks' ∧
      dedentFrom outs' column ind' toks'.toArray = dedentFrom outs column ind toks.toArray

section States

variable {s : Lexer} {allowed : Bool} {rest next : List Char} {column k : ℕ} {outs : List ℤ}
  {ind : ℤ} {toks : List Token}

theorem At.fades (h : s.At allowed rest column outs ind toks) (line : ℕ) : s.Fades line := by
  obtain ⟨k, hk, hidle⟩ := h.idle
  refine ⟨k, hk, fun hpossible => ?_⟩
  rw [hidle] at hpossible
  cases hpossible

theorem dedentFrom_of_le (h : ind ≤ column) (outs : List ℤ) (toks : Array Token) :
    dedentFrom outs column ind toks = (outs, ind, toks) := by
  cases outs with
  | nil => rfl
  | cons out outs => rw [dedentFrom, if_neg (by omega)]

/-- A block collection ends before the next token. -/
theorem Stands.pop {out : ℤ} (h : s.Stands allowed rest column (out :: outs) ind toks)
    (hind : (column : ℤ) < ind) : s.Stands allowed rest column outs out (toks ++ [.blockEnd]) := by
  obtain ⟨hdone, hlength, u, outs', ind', toks', hsettle, hat, hdedent⟩ := h
  refine ⟨hdone, hlength, u, outs', ind', toks', hsettle, hat, hdedent.trans ?_⟩
  rw [dedentFrom, if_pos hind, List.push_toArray]

/-- Before the next token, the block collections that end there are ended. -/
theorem Stands.settle (h : s.Stands allowed rest column outs ind toks) (hind : ind ≤ column) :
    ∃ u : Lexer, (s.toNextToken (s.cursor.rest.length + 1)).dropStaleKeys = some u ∧
      (u.dedentTo u.cursor.column).At allowed rest column outs ind toks := by
  obtain ⟨hdone, hlength, u, outs', ind', toks', hsettle, hat, hdedent⟩ := h
  refine ⟨u, hsettle, ?_⟩
  -- whatever ends there has been taken into account by `Stands`, and no more ends
  have hdedentTo : u.dedentTo u.cursor.column =
      { u with indents := outs, indent := ind, tokens := toks.toArray } := by
    rw [dedentTo, hat.flow, hat.column, hat.indents, hat.indent, hat.tokens, hdedent,
      dedentFrom_of_le hind]
    rfl
  rw [hdedentTo]
  exact ⟨⟨hat.flow, hat.done, rfl, rfl, rfl⟩, hat.rest, hat.column, hat.allowed, hat.idle⟩

/-- The next token is read where the lexer stands. -/
theorem Stands.step_cons {c : Char} {cs : List Char}
    (h : s.Stands allowed (c :: cs) column outs ind toks) (hind : ind ≤ column) :
    ∃ u : Lexer, u.At allowed (c :: cs) column outs ind toks ∧ s.step = u.token c cs := by
  obtain ⟨u, hsettle, hat⟩ := h.settle hind
  refine ⟨_, hat, ?_⟩
  rw [step, hsettle]
  simp only [Option.bind_eq_bind, Option.bind_some, hat.rest]

/-- At its end the text is finished. -/
theorem Stands.step_nil (h : s.Stands allowed [] column outs ind toks) (hind : ind ≤ column) :
    ∃ u : Lexer, u.At allowed [] column outs ind toks ∧ s.step = u.finish := by
  obtain ⟨u, hsettle, hat⟩ := h.settle hind
  refine ⟨_, hat, ?_⟩
  rw [step, hsettle]
  simp only [Option.bind_eq_bind, Option.bind_some, hat.rest]

/-! ### From one token to the next -/

theorem skipWhile_spaces {c : Cursor} {p : Char → Bool} (hspace : p ' ' = true)
    (hnext : ∀ ch ∈ next.head?, p ch = false) (hrest : c.rest = spaces k ++ next) :
    c.skipWhile p = c.advance k ∧ (c.advance k).rest = next := by
  have hspaces : ∀ ch ∈ spaces k, p ch = true := by
    intro ch hch
    rw [List.eq_of_mem_replicate hch]
    exact hspace
  have hdrop : next.dropWhile p = next := by
    cases next with
    | nil => rfl
    | cons a next => rw [List.dropWhile_cons, hnext a rfl, if_neg Bool.false_ne_true]
  have hgoto := Cursor.goto_append hrest
  have hafter := Cursor.rest_advance hrest
  rw [length_spaces] at hgoto hafter
  rw [Cursor.skipWhile, hrest, List.dropWhile_append_of_pos hspaces, hdrop]
  exact ⟨hgoto, hafter⟩

theorem toNextToken_spaces {n : ℕ} (hnext : Fresh next) (hrest : s.cursor.rest = spaces k ++ next) :
    s.toNextToken (n + 1) = { s with cursor := s.cursor.advance k } := by
  have hmark : s.cursor.isAt '\ufeff' = false := by
    rw [Cursor.isAt, hrest]
    cases k with
    | zero =>
        cases next with
        | nil => rfl
        | cons a next => simpa [spaces] using (hnext a rfl).2.2
    | succ k => rfl
  have htab : ∀ ch ∈ next.head?, (decide (ch = ' ') ||
      (decide (s.flow > 0) || !s.keyAllowed) && decide (ch = '\t')) = false := by
    intro ch hch
    have hblank := isBlank_of_isSpace_eq_false (hnext ch hch).1
    simp only [isBlank, Bool.or_eq_false_iff] at hblank
    rw [hblank.1, hblank.2, Bool.and_false, Bool.or_false]
  obtain ⟨hskip, hafter⟩ := skipWhile_spaces (by simp) htab hrest
  have hhash : (s.cursor.advance k).isAt '#' = false := by
    rw [Cursor.isAt, hafter]
    cases next with
    | nil => rfl
    | cons a next => simpa using (hnext a rfl).2.1
  have hbreak : (s.cursor.advance k).peek.any isBreak = false := by
    rw [Cursor.peek, hafter]
    cases next with
    | nil => rfl
    | cons a next => exact isBreak_of_isSpace_eq_false (hnext a rfl).1
  simp only [toNextToken, hmark, hskip, hhash, hbreak, Bool.and_false, Bool.false_eq_true,
    if_false]

theorem toNextToken_newline {n : ℕ} (hnext : Fresh next) (hflow : s.flow = 0)
    (hrest : s.cursor.rest = '\n' :: (spaces k ++ next)) :
    s.toNextToken (n + 2) = { s with
      cursor := (s.cursor.nextLine 1 (spaces k ++ next)).advance k
      keyAllowed := true } := by
  have hmark : s.cursor.isAt '\ufeff' = false := by rw [Cursor.isAt, hrest]; rfl
  have hskip : s.cursor.skipWhile (fun ch => decide (ch = ' ') ||
      (decide (s.flow > 0) || !s.keyAllowed) && decide (ch = '\t')) = s.cursor := by
    refine (skipWhile_spaces (k := 0) (by simp) ?_ hrest).1
    simp
  have hhash : s.cursor.isAt '#' = false := by rw [Cursor.isAt, hrest]; rfl
  have hbreak : s.cursor.peek.any isBreak = true := by rw [Cursor.peek, hrest]; rfl
  have htake : s.cursor.takeBreak.2 = s.cursor.nextLine 1 (spaces k ++ next) := by
    simp [Cursor.takeBreak, hrest, isBreak]
  have hallowed : (s.keyAllowed || decide (s.flow = 0)) = true := by simp [hflow]
  rw [toNextToken]
  simp only [hmark, hskip, hhash, hbreak, htake, hallowed, Bool.and_false, Bool.false_eq_true,
    if_false, if_true]
  exact toNextToken_spaces (s := { s with
    cursor := s.cursor.nextLine 1 (spaces k ++ next), keyAllowed := true }) hnext rfl

/-! ### Where the next token starts -/

theorem dropStaleKeys_of_fades {line : ℕ} (h : s.Fades line) (hline : line ≤ s.cursor.line) :
    ∃ k, s.dropStaleKeys = some { s with keys := [k] } ∧ k.possible = false := by
  obtain ⟨k, hk, hfades⟩ := h
  cases hpossible : k.possible with
  | false => exact ⟨k, by simp [dropStaleKeys, hk, hpossible], hpossible⟩
  | true =>
      obtain ⟨hrequired, hlt⟩ := hfades hpossible
      exact ⟨{ k with possible := false },
        by simp [dropStaleKeys, hk, hpossible, hrequired, Nat.lt_of_lt_of_le hlt hline], rfl⟩

/-- A key that started on this line and not too far back can still be one. -/
theorem dropStaleKeys_eq_self (h : ∀ k ∈ s.keys, k.possible = true →
    s.cursor.line ≤ k.line ∧ s.cursor.index ≤ k.index + 1024) : s.dropStaleKeys = some s := by
  have hkeys : s.keys.mapM (fun k =>
      if k.possible && (k.line < s.cursor.line || k.index + 1024 < s.cursor.index) then
        if k.required then none else some { k with possible := false }
      else some k) = some s.keys := by
    generalize s.keys = l at h
    induction l with
    | nil => rfl
    | cons k l ih =>
        rw [List.forall_mem_cons] at h
        have hstale : (k.possible && (decide (k.line < s.cursor.line) ||
            decide (k.index + 1024 < s.cursor.index))) = false := by
          cases hpossible : k.possible with
          | false => rfl
          | true =>
              obtain ⟨hline, hindex⟩ := h.1 hpossible
              simp only [Bool.true_and, Bool.or_eq_false_iff, decide_eq_false_iff_not]
              omega
        rw [List.mapM_cons, hstale, ih h.2]
        rfl
  rw [dropStaleKeys]
  simp only [hkeys, Option.bind_eq_bind, Option.bind_some]
  rfl

theorem stands_of_toNextToken {t : Lexer} (hdone : s.done = false)
    (hlength : t.cursor.rest.length ≤ s.cursor.rest.length)
    (hnext : s.toNextToken (s.cursor.rest.length + 1) = t) (h : t.Block outs ind toks)
    (hfades : t.Fades t.cursor.line) :
    s.Stands t.keyAllowed t.cursor.rest t.cursor.column outs ind toks := by
  obtain ⟨key, hkeys, hidle⟩ := dropStaleKeys_of_fades hfades (Nat.le_refl _)
  refine ⟨hdone, hlength, _, outs, ind, toks, by rw [hnext, hkeys], ?_, rfl⟩
  exact ⟨⟨h.flow, h.done, h.indents, h.indent, h.tokens⟩, rfl, rfl, rfl, key, rfl, hidle⟩

/-- After spaces, the next token stands on the same line. -/
theorem Block.stands_spaces (h : s.Block outs ind toks) (hfades : s.Fades s.cursor.line)
    (hnext : Fresh next) (hrest : s.cursor.rest = spaces k ++ next) :
    s.Stands s.keyAllowed next (s.cursor.column + k) outs ind toks := by
  have hafter := Cursor.rest_advance hrest
  rw [length_spaces] at hafter
  have hstands := stands_of_toNextToken (t := { s with cursor := s.cursor.advance k }) h.done
    (by rw [hafter, hrest, List.length_append]; omega) (toNextToken_spaces hnext hrest)
    ⟨h.flow, h.done, h.indents, h.indent, h.tokens⟩ hfades
  rwa [hafter] at hstands

/-- After a line break, the next token stands on the next line. -/
theorem Block.stands_newline (h : s.Block outs ind toks) (hfades : s.Fades (s.cursor.line + 1))
    (hnext : Fresh next) (hrest : s.cursor.rest = '\n' :: (spaces k ++ next)) :
    s.Stands true next k outs ind toks := by
  let c := (s.cursor.nextLine 1 (spaces k ++ next)).advance k
  have hafter : c.rest = next := by
    have hrest' := Cursor.rest_advance (c := s.cursor.nextLine 1 (spaces k ++ next)) rfl
    rwa [length_spaces] at hrest'
  have hcolumn : c.column = k := Nat.zero_add k
  have hlength : s.cursor.rest.length + 1 = (spaces k ++ next).length + 2 := by rw [hrest]; rfl
  have hstands := stands_of_toNextToken (t := { s with cursor := c, keyAllowed := true }) h.done
    (by rw [hafter, hrest]; simp; omega) (hlength ▸ toNextToken_newline hnext h.flow hrest)
    ⟨h.flow, h.done, h.indents, h.indent, h.tokens⟩ hfades
  rwa [hafter, hcolumn] at hstands

end States

end Groundwork.Yaml.Lexer
