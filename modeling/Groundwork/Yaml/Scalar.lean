/-
Scalars in YAML text.

A plain scalar goes on over lines that are indented further than what holds it.  A quoted scalar
goes on to its closing quote.  A block scalar keeps its lines, or folds them.

* `Scalar.plain`, `Scalar.quoted`, `Scalar.block` — the text of a scalar and what comes after it.
-/
import Groundwork.Json.Reader
import Groundwork.Yaml.Cursor

set_option autoImplicit false

namespace Groundwork.Yaml.Scalar

/-! ### Plain scalars -/

/-- A word of a plain scalar, and what comes after it.  A colon ends the word where a blank
follows it; in a flow collection the indicators end it too. -/
def plainWord (flow : Bool) : List Char → Option (List Char × List Char)
  | [] => some ([], [])
  | c :: rest =>
    if isSpace c then some ([], c :: rest)
    else if c = ':' && endsWord rest then some ([], c :: rest)
    else if flow && c = ':' &&
        (rest.head?.any fun d => isFlowIndicator d || d = '?') then none
    else if flow && isFlowIndicator c then some ([], c :: rest)
    else (plainWord flow rest).map fun (w, rest) => (c :: w, rest)

/-- The words of a plain scalar after those in `text`, with the gap before them.  The flag of the
result says whether the scalar is followed by a break. -/
def plainFrom (flow : Bool) (limit : Nat) :
    Nat → Cursor → Gap → List Char → Option (List Char × Bool × Cursor)
  | 0, _, _, _ => none
  | n + 1, c, gap, text =>
    if c.atDocumentMark || c.isAt '#' then some (text, gap.broken, c)
    else do
      let (word, rest) ← plainWord flow c.rest
      let (gap, text) := if word.isEmpty then (gap, text) else ({}, text ++ gap.text ++ word)
      let c := c.goto rest
      if !(c.peek.any isSpace) then return (text, gap.broken, c)
      let (gap, c) ← Gap.read limit (c.rest.length + 1) c {}
      if !flow && c.column < limit then return (text, gap.broken, c)
      plainFrom flow limit n c gap text

/-- A plain scalar.  Outside flow collections its further lines start at column `limit` or after
it. -/
def plain (flow : Bool) (limit : Nat) (c : Cursor) : Option (String × Bool × Cursor) :=
  (plainFrom flow limit (c.rest.length + 1) c {} []).map fun (t, b, c) => (String.ofList t, b, c)

/-! ### Quoted scalars -/

/-- The character that a letter after a backslash stands for. -/
def shortEscape? : Char → Option Char
  | '0' => some '\x00'
  | 'a' => some '\x07'
  | 'b' => some '\x08'
  | 't' => some '\t'
  | '\t' => some '\t'
  | 'n' => some '\n'
  | 'v' => some '\x0b'
  | 'f' => some '\x0c'
  | 'r' => some '\r'
  | 'e' => some '\x1b'
  | ' ' => some ' '
  | '"' => some '"'
  | '/' => some '/'
  | '\\' => some '\\'
  | 'N' => some '\x85'
  | '_' => some '\xa0'
  | 'L' => some '\u2028'
  | 'P' => some '\u2029'
  | _ => none

/-- The number of hexadecimal digits that a letter after a backslash asks for. -/
def codeLength? : Char → Option Nat
  | 'x' => some 2
  | 'u' => some 4
  | 'U' => some 8
  | _ => none

/-- The character of an escape, given what follows the backslash, and the rest. -/
def escape? : List Char → Option (Char × List Char)
  | [] => none
  | e :: rest =>
    match codeLength? e with
    | none => (shortEscape? e).map (·, rest)
    | some k => do
      if rest.length < k then none
      let n ← Json.hexNumber? (rest.take k)
      if h : n.isValidChar then return (Char.ofNatAux n h, rest.drop k) else none

/-- A word of a quoted scalar, and what comes after it: a gap, the closing quote, or a backslash
before a break. -/
def quotedWord (single : Bool) : Nat → List Char → Option (List Char × List Char)
  | 0, _ => none
  | _ + 1, [] => some ([], [])
  | n + 1, c :: rest =>
    let next (c : Char) (rest : List Char) :=
      (quotedWord single n rest).map fun (w, rest) => (c :: w, rest)
    if isSpace c then some ([], c :: rest)
    else if single then
      if c = '\'' then
        match rest with
        | '\'' :: rest => next c rest
        | _ => some ([], c :: rest)
      else next c rest
    else if c = '"' then some ([], c :: rest)
    else if c = '\\' then
      if rest.head?.any isBreak then some ([], c :: rest)
      else (escape? rest).bind fun (c, rest) => next c rest
    else next c rest

/-- A quoted scalar after its opening quote and the words in `text`. -/
def quotedFrom (single : Bool) : Nat → Cursor → List Char → Option (List Char × Cursor)
  | 0, _, _ => none
  | n + 1, c, text =>
    if c.atDocumentMark || c.rest.isEmpty then none
    else do
      let quote := if single then '\'' else '"'
      let (word, rest) ← quotedWord single (c.rest.length + 1) c.rest
      let text := text ++ word
      let c := c.goto rest
      if c.isAt quote then return (text, c.advance 1)
      let escaped := !single && c.isAt '\\'
      let c := if escaped then (c.advance 1).takeBreak.2 else c
      if c.isAt quote then return (text, c.advance 1)
      let (gap, c) ← Gap.read 0 (c.rest.length + 1) c { broken := escaped }
      quotedFrom single n c (text ++ gap.text)

/-- A quoted scalar, from its opening quote on. -/
def quoted (single : Bool) (c : Cursor) : Option (String × Cursor) :=
  (quotedFrom single (c.rest.length + 1) (c.advance 1) []).map fun (t, c) => (String.ofList t, c)

/-! ### Block scalars -/

/-- What becomes of the breaks at the end of a block scalar. -/
inductive Chomp where
  /-- All are dropped. -/
  | strip
  /-- One is kept. -/
  | clip
  /-- All are kept. -/
  | keep
deriving DecidableEq

/-- The indicator of what becomes of the breaks, if it is next. -/
def chomp? (c : Cursor) : Option (Chomp × Cursor) :=
  if c.isAt '+' then some (.keep, c.advance 1)
  else if c.isAt '-' then some (.strip, c.advance 1)
  else none

/-- The indicator of the indentation, if it is next; it must not be zero. -/
def increment? (c : Cursor) : Option (Nat × Cursor) :=
  match c.peek with
  | some d =>
    if d = '0' then none
    else if d.isDigit then some (d.toNat - '0'.toNat, c.advance 1)
    else some (0, c)
  | none => some (0, c)

/-- The head of a block scalar after its indicator, in either order. -/
def head (c : Cursor) : Option (Chomp × Nat × Cursor) := do
  match chomp? c with
  | some (chomp, c) =>
    let (k, c) ← increment? c
    return (chomp, k, c)
  | none =>
    let (k, c) ← increment? c
    if k = 0 then return (.clip, 0, c)
    match chomp? c with
    | some (chomp, c) => return (chomp, k, c)
    | none => return (.clip, k, c)

/-- Reads the empty lines before a line of a block scalar, and the indentation of that line.
While the indentation is not known, which `indent = 0` says, the deepest line decides. -/
def lineBreaks (indent : Nat) :
    Nat → Cursor → List Char → Nat → Option (List Char × Nat × Cursor)
  | 0, c, breaks, deepest => some (breaks, deepest, c)
  | n + 1, c, breaks, deepest =>
    let spaces := (c.rest.takeWhile (· == ' ')).length
    let c := c.advance (if indent = 0 then spaces else min spaces (indent - c.column))
    let deepest := max deepest c.column
    if (indent = 0 || c.column < indent) && c.isAt '\t' then none
    else if c.peek.any isBreak then
      let (b, c) := c.takeBreak
      lineBreaks indent n c (breaks ++ b) deepest
    else some (breaks, deepest, c)

/-- The lines of a block scalar after those in `text`.  `last` is the break after the last line and
`breaks` the empty lines after it; `blank` says that the last line starts with a blank. -/
def lines (literal : Bool) (indent : Nat) :
    Nat → Cursor → List Char → List Char → List Char → Bool →
      Option (List Char × List Char × List Char × Cursor)
  | 0, _, _, _, _, _ => none
  | n + 1, c, text, last, breaks, blank =>
    if c.column = indent && !c.rest.isEmpty then do
      let startsBlank := c.peek.any isBlank
      let joint :=
        if !literal && last = ['\n'] && !blank && !startsBlank then
          (if breaks.isEmpty then [' '] else [])
        else last
      let line := c.rest.takeWhile (!isBreak ·)
      let (last, next) := (c.advance line.length).takeBreak
      let (more, _, next) ← lineBreaks indent (next.rest.length + 1) next [] 0
      lines literal indent n next (text ++ joint ++ breaks ++ line) last more startsBlank
    else some (text, last, breaks, c)

/-- A block scalar, from its indicator on, inside of something indented by `parent`. -/
def block (literal : Bool) (parent : Int) (c : Cursor) : Option (String × Cursor) := do
  let (chomp, increment, c) ← head (c.advance 1)
  let c := c.skipWhile isBlank
  let c := if c.isAt '#' then c.skipWhile (!isBreak ·) else c
  if !endsLine c.rest then none
  let c := c.takeBreak.2
  let indent :=
    if increment = 0 then 0
    else if parent ≥ 0 then parent.toNat + increment else increment
  let (breaks, deepest, c) ← lineBreaks indent (c.rest.length + 1) c [] 0
  let indent := if indent = 0 then max (max deepest (parent + 1).toNat) 1 else indent
  let (text, last, breaks, c) ← lines literal indent (c.rest.length + 1) c [] [] breaks false
  let tail := match chomp with
    | .strip => []
    | .clip => last
    | .keep => last ++ breaks
  return (String.ofList (text ++ tail), c)

end Groundwork.Yaml.Scalar
