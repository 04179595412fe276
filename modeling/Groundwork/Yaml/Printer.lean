/-
Writing YAML text.

Collections are written in block style, each level two columns further in; only the items of a
sequence stand as far out as the key above them.  A text is written plainly where it then reads
back as itself, in quotes where it would not, and as a block of lines where it has line feeds.

* `Yaml.Shape` — the properties of a text that decide how it may be written;
* `Yaml.Style`, `Yaml.styleOf` — how a text is written;
* `Yaml.scalarText` — the text as it is written;
* `Yaml.render` — the text of a datum.
-/
import Groundwork.Datum
import Groundwork.Yaml.Ambiguous
import Groundwork.Yaml.Cursor

set_option autoImplicit false

namespace Groundwork.Yaml

/-! ### The shape of a text -/

/-- The characters that may be written as they are. -/
def isPrintable (c : Char) : Bool :=
  let n := c.toNat
  n = 0x0A || (0x20 ≤ n && n ≤ 0x7E) || (0xA0 ≤ n && n ≤ 0xD7FF) ||
    (0xE000 ≤ n && n ≤ 0xFFFD && n ≠ 0xFEFF) || 0x10000 ≤ n

/-- The characters that cannot start a plain text. -/
def isIndicator (c : Char) : Bool := "#,[]\x7b\x7d&*!|>'\"%@\x60".contains c

/-- What decides how a text may be written. -/
structure Shape where
  /-- It would be taken for markup. -/
  markup : Bool
  /-- It has characters that have to be escaped. -/
  special : Bool
  /-- It has breaks. -/
  broken : Bool
  /-- It starts or ends with a space or a break. -/
  loose : Bool
  /-- It ends with a space. -/
  trailingSpace : Bool
  /-- A space follows a break. -/
  breakSpace : Bool
  /-- A break follows a space. -/
  spaceBreak : Bool

/-- Whether two neighbours in a text pass a test. -/
def anyNeighbors (p : Char → Char → Bool) : List Char → Bool
  | a :: b :: rest => p a b || anyNeighbors p (b :: rest)
  | _ => false

/-- Whether a text after its first character, which is `before`, holds a mark of a comment or of a
value. -/
def hasMark : Char → List Char → Bool
  | _, [] => false
  | before, c :: rest =>
    (c = ':' && endsWord rest) || (c = '#' && isSpace before) || hasMark c rest

/-- Whether a text would be taken for markup. -/
def looksLikeMarkup (cs : List Char) : Bool :=
  match cs with
  | [] => false
  | c :: rest =>
    cs.take 3 = ['-', '-', '-'] || cs.take 3 = ['.', '.', '.'] ||
      isIndicator c || ((c = '?' || c = ':' || c = '-') && endsWord rest) || hasMark c rest

/-- The shape of a text. -/
def shapeOf (cs : List Char) : Shape where
  markup := looksLikeMarkup cs
  special := cs.any (!isPrintable ·)
  broken := cs.any isBreak
  loose :=
    let edge (c : Char) : Bool := c = ' ' || isBreak c
    cs.head?.any edge || cs.getLast?.any edge
  trailingSpace := cs.getLast? = some ' '
  breakSpace := anyNeighbors (fun a b => isBreak a && b = ' ') cs
  spaceBreak := anyNeighbors (fun a b => a = ' ' && isBreak b) cs

/-! ### Styles -/

/-- How a text is written. -/
inductive Style where
  /-- As it is. -/
  | plain
  /-- In single quotes. -/
  | single
  /-- In double quotes, with escapes. -/
  | double
  /-- As a block of lines. -/
  | literal
deriving DecidableEq, Inhabited

/-- How a text is written. -/
def styleOf (s : String) : Style :=
  let cs := s.toList
  let f := shapeOf cs
  if cs.contains '\n' then
    if f.trailingSpace || f.spaceBreak || f.special then .double else .literal
  else if isAmbiguous s || f.markup || f.broken || f.loose || f.special then
    if f.breakSpace || f.spaceBreak || f.special then .double else .single
  else .plain

/-! ### Texts -/

/-- The spaces of an indentation. -/
def spaces (n : Nat) : List Char := List.replicate n ' '

/-- The lines of a block, each indented; `fresh` says that a line starts here. -/
def literalLines (indent : Nat) (fresh : Bool) : List Char → List Char
  | [] => []
  | c :: rest =>
    if isBreak c then c :: literalLines indent true rest
    else (if fresh then spaces indent else []) ++ c :: literalLines indent false rest

/-- What a block says about its indentation and about the breaks at its end. -/
def literalHints (cs : List Char) : List Char :=
  (if cs.head?.any fun c => c = ' ' || isBreak c then ['2'] else []) ++
  match cs.reverse with
  | [] => ['-']
  | c :: rest =>
    if !isBreak c then ['-']
    else if rest.isEmpty || rest.head?.any isBreak then ['+']
    else []

/-- The text between single quotes; a line after a break is indented. -/
def singleBody (indent : Nat) (fresh : Bool) : List Char → List Char
  | [] => if fresh then spaces indent else []
  | c :: rest =>
    if isBreak c then c :: singleBody indent true rest
    else
      (if fresh then spaces indent else []) ++
        (if c = '\'' then [c, c] else [c]) ++ singleBody indent false rest

/-- Digits of a character's number in base sixteen, as many as asked for. -/
def hexDigits (width n : Nat) : List Char :=
  let ds := (Nat.toDigits 16 n).map Char.toUpper
  List.replicate (width - ds.length) '0' ++ ds

/-- A character between double quotes. -/
def doubleEscape (c : Char) : List Char :=
  match c with
  | '\x00' => ['\\', '0']
  | '\x07' => ['\\', 'a']
  | '\x08' => ['\\', 'b']
  | '\t' => ['\\', 't']
  | '\n' => ['\\', 'n']
  | '\x0b' => ['\\', 'v']
  | '\x0c' => ['\\', 'f']
  | '\r' => ['\\', 'r']
  | '\x1b' => ['\\', 'e']
  | '"' => ['\\', '"']
  | '\\' => ['\\', '\\']
  | '\x85' => ['\\', 'N']
  | '\u2028' => ['\\', 'L']
  | '\u2029' => ['\\', 'P']
  | c =>
    if isPrintable c then [c]
    else if c.toNat ≤ 0xFF then '\\' :: 'x' :: hexDigits 2 c.toNat
    else if c.toNat ≤ 0xFFFF then '\\' :: 'u' :: hexDigits 4 c.toNat
    else '\\' :: 'U' :: hexDigits 8 c.toNat

/-- A text as it is written where its further lines are indented by `indent`. -/
def scalarText (indent : Nat) (s : String) : List Char :=
  let cs := s.toList
  match styleOf s with
  | .plain => cs
  | .single => '\'' :: singleBody indent false cs ++ ['\'']
  | .double => '"' :: cs.flatMap doubleEscape ++ ['"']
  | .literal => '|' :: literalHints cs ++ '\n' :: literalLines indent true cs

/-- Ends a line that has not ended. -/
def endLine (cs : List Char) : List Char :=
  if cs.getLast?.any isBreak then cs else cs ++ ['\n']

/-- Whether a text may stand as a key before its colon: on one line, and not too long. -/
def isSimpleKey (s : String) : Bool := !s.any isBreak && s.utf8ByteSize ≤ 128

/-! ### Data -/

/-- A value that is not a collection with content, as it is written. -/
def leafText (indent : Nat) : Datum → List Char
  | .null => "null".toList
  | .bool b => (toString b).toList
  | .int n => (toString n).toList
  | .real x => x.text.toList
  | .text s => scalarText indent s
  | .list _ => "[]".toList
  | .record _ => "\x7b\x7d".toList
  | .garbled => "null".toList

/-- A key with its colon. -/
def keyText (indent : Nat) (k : String) : List Char :=
  if isSimpleKey k then scalarText (indent + 2) k ++ [':']
  else '?' :: ' ' :: endLine (scalarText (indent + 2) k) ++ spaces indent ++ [':']

mutual

/-- A value after its key; `simple` says that the key stands on the same line. -/
def valueText (indent : Nat) (simple : Bool) : Datum → List Char
  | .record (m :: ms) =>
    if simple then '\n' :: spaces (indent + 2) ++ fieldsText (indent + 2) (m :: ms)
    else ' ' :: fieldsText (indent + 2) (m :: ms)
  | .list (d :: ds) =>
    if simple then '\n' :: spaces indent ++ itemsText indent (d :: ds)
    else ' ' :: itemsText (indent + 2) (d :: ds)
  | d => ' ' :: endLine (leafText (indent + 2) d)

/-- The members of a record; the first one starts where the text stands. -/
def fieldsText (indent : Nat) : List (String × Datum) → List Char
  | [] => []
  | (k, d) :: rest =>
    keyText indent k ++ valueText indent (isSimpleKey k) d ++
      match rest with
      | [] => []
      | m :: ms => spaces indent ++ fieldsText indent (m :: ms)

/-- The items of a list; the first one starts where the text stands. -/
def itemsText (indent : Nat) : List Datum → List Char
  | [] => []
  | d :: rest =>
    '-' :: itemText indent d ++
      match rest with
      | [] => []
      | d :: ds => spaces indent ++ itemsText indent (d :: ds)

/-- An item after its dash. -/
def itemText (indent : Nat) : Datum → List Char
  | .record (m :: ms) => ' ' :: fieldsText (indent + 2) (m :: ms)
  | .list (d :: ds) => ' ' :: itemsText (indent + 2) (d :: ds)
  | d => ' ' :: endLine (leafText (indent + 2) d)

end

/-- The text of a datum. -/
def render : Datum → String
  | .record (m :: ms) => String.ofList (fieldsText 0 (m :: ms))
  | .list (d :: ds) => String.ofList (itemsText 0 (d :: ds))
  | d => String.ofList (endLine (leafText 0 d))

end Groundwork.Yaml
