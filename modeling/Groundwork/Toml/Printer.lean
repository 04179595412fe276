/-
Writing TOML text.

A record of records is written as one section for each of them, with blank lines between them.  A
text is written in the plainest of the four kinds of quoted texts that needs no escapes, if there
is one.

* `Toml.Shape` — the properties of a text that decide how it is written;
* `Toml.Style`, `Toml.styleOf` — how a text is written;
* `Toml.quote` — the text as it is written;
* `Toml.render?` — the text of sections, if all their numbers fit into 64 bits.
-/
import Groundwork.Datum
import Groundwork.Numeral

set_option autoImplicit false

namespace Groundwork.Toml

/-! ### The shape of a text -/

/-- The length of the longest run of a character, where a run of `n` of them has just been read
and the longest one so far has `best`. -/
def longestRun (q : Char) (n best : Nat) : List Char → Nat
  | [] => best
  | c :: rest =>
    if c = q then longestRun q (n + 1) (max best (n + 1)) rest else longestRun q 0 best rest

/-- Whether a character cannot be written as it is in any text on one line or several. -/
def isCode (c : Char) : Bool := (c < ' ' && c ≠ '\t' && c ≠ '\n') || c = '\x7f'

/-- What decides how a text is written. -/
structure Shape where
  /-- The length of the longest run of single quotes. -/
  singles : Nat
  /-- The length of the longest run of double quotes. -/
  doubles : Nat
  /-- It has backslashes. -/
  slashed : Bool
  /-- It has line feeds. -/
  broken : Bool
  /-- It has characters that have to be escaped. -/
  coded : Bool

/-- The shape of a text. -/
def shapeOf (cs : List Char) : Shape where
  singles := longestRun '\'' 0 0 cs
  doubles := longestRun '"' 0 0 cs
  slashed := cs.contains '\\'
  broken := cs.contains '\n'
  coded := cs.any isCode

/-! ### Styles -/

/-- How a text is written. -/
inductive Style where
  /-- In double quotes, with escapes. -/
  | basic
  /-- In single quotes, without escapes. -/
  | literal
  /-- In triple double quotes, with escapes. -/
  | longBasic
  /-- In triple single quotes, without escapes. -/
  | longLiteral
deriving DecidableEq, Inhabited

/-- The quotes around a text. -/
def Style.mark : Style → String
  | .basic => "\""
  | .literal => "'"
  | .longBasic => "\"\"\""
  | .longLiteral => "'''"

/-- Whether a style is for texts of several lines. -/
def Style.isLong : Style → Bool
  | .longBasic | .longLiteral => true
  | _ => false

/-- Whether a style has escapes. -/
def Style.escapes : Style → Bool
  | .basic | .longBasic => true
  | _ => false

/-- The style of a text of this shape. -/
def Shape.style (f : Shape) : Style :=
  if !f.coded && !f.slashed && !f.broken && f.doubles = 0 then .basic
  else if !f.coded && !f.broken && f.singles = 0 then .literal
  else if !f.coded && !f.slashed && f.doubles ≤ 2 then .longBasic
  else if !f.coded && f.singles ≤ 2 then .longLiteral
  else if f.broken then .longBasic
  else .basic

/-- The style of a text. -/
def styleOf (s : String) : Style := (shapeOf s.toList).style

/-! ### Texts -/

/-- A character's number in four digits of base sixteen. -/
def hexCode (c : Char) : List Char :=
  let ds := (Nat.toDigits 16 c.toNat).map Char.toUpper
  List.replicate (4 - ds.length) '0' ++ ds

/-- The escape of a character other than a quote, if it has to be escaped; `long` says that the
text has several lines. -/
def escapeOf? (long : Bool) (c : Char) : Option (List Char) :=
  match c with
  | '\x08' => some ['\\', 'b']
  | '\t' => some ['\\', 't']
  | '\n' => if long then none else some ['\\', 'n']
  | '\x0c' => some ['\\', 'f']
  | '\r' => some ['\\', 'r']
  | '\\' => some ['\\', '\\']
  | c => if isCode c then some ('\\' :: 'u' :: hexCode c) else none

/-- A text between double quotes, after a run of `n` quotes that are not escaped.  In triple quotes
two quotes in a row need no escape. -/
def escaped (long : Bool) (n : Nat) : List Char → List Char
  | [] => []
  | '"' :: rest =>
    if long && n < 2 then '"' :: escaped long (n + 1) rest else '\\' :: '"' :: escaped long 0 rest
  | c :: rest => (escapeOf? long c).getD [c] ++ escaped long 0 rest

/-- A text as it is written.  A text of several lines starts on a line of its own. -/
def quote (s : String) : String :=
  let style := styleOf s
  let body := if style.escapes then escaped style.isLong 0 s.toList else s.toList
  let body := if style.isLong && s.contains '\n' then '\n' :: body else body
  style.mark ++ String.ofList body ++ style.mark

/-! ### Sections -/

/-- A value that is no collection, as it is written; there is none for a whole number of more than
64 bits. -/
def leaf? : Datum → Option String
  | .text s => some (quote s)
  | .bool b => some (toString b)
  | .int n => if Numeral.isSigned 64 n then some (toString n) else none
  | _ => none

/-- The lines of the entries of a section, whose names are keys without quotes. -/
def entryLines? (l : List (String × Datum)) : Option (List String) :=
  l.mapM fun e => (leaf? e.2).map fun v => e.1 ++ " = " ++ v ++ "\n"

/-- The text of sections by their names. -/
def render? (sections : List (String × List (String × Datum))) : Option String := do
  let texts ← sections.mapM fun s => do
    return "[" ++ s.1 ++ "]\n" ++ String.join (← entryLines? s.2)
  return "\n".intercalate texts

end Groundwork.Toml
