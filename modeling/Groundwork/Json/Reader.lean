/-
Reading JSON text.

The reader goes through the text once.  It keeps repeated names of a record, and a text with half
of a surrogate pair becomes `Datum.garbled`: such a text may stand where nothing reads it.

* `Json.read` — the datum of a text, if the text is JSON;
* `Json.pieces`, `Json.joinPieces` — the two steps of reading a quoted text;
* `Json.number` — reading a number.
-/
import Groundwork.Datum

set_option autoImplicit false

namespace Groundwork.Json

/-! ### Characters -/

/-- The characters that may stand between tokens. -/
def isBlank (c : Char) : Bool := c = ' ' || c = '\n' || c = '\t' || c = '\r'

/-- The text from the next token on. -/
def skipBlanks (cs : List Char) : List Char := cs.dropWhile isBlank

/-- The value of a hexadecimal digit. -/
def hexDigit? (c : Char) : Option Nat :=
  if c.isDigit then some (c.toNat - '0'.toNat)
  else if 'a' ≤ c && c ≤ 'f' then some (c.toNat - 'a'.toNat + 10)
  else if 'A' ≤ c && c ≤ 'F' then some (c.toNat - 'A'.toNat + 10)
  else none

/-- The value of hexadecimal digits. -/
def hexNumber? (cs : List Char) : Option Nat :=
  cs.foldlM (fun n c => (hexDigit? c).map (16 * n + ·)) 0

/-- The character that a letter after a backslash stands for. -/
def shortEscape? : Char → Option Char
  | '"' => some '"'
  | '\\' => some '\\'
  | '/' => some '/'
  | 'b' => some '\x08'
  | 'f' => some '\x0c'
  | 'n' => some '\n'
  | 'r' => some '\r'
  | 't' => some '\t'
  | _ => none

/-! ### Quoted texts -/

/-- A piece of a quoted text: a character, or a unit of sixteen bits given by its number. -/
inductive Piece where
  /-- A character. -/
  | char (c : Char)
  /-- A unit of sixteen bits. -/
  | unit (n : Nat)

/-- The pieces of a quoted text up to its closing quote, and what comes after it. -/
def pieces : List Char → Option (List Piece × List Char)
  | [] => none
  | '"' :: rest => some ([], rest)
  | '\\' :: 'u' :: a :: b :: c :: d :: rest => do
    let n ← hexNumber? [a, b, c, d]
    let (ps, rest) ← pieces rest
    return (.unit n :: ps, rest)
  | '\\' :: e :: rest => do
    let c ← shortEscape? e
    let (ps, rest) ← pieces rest
    return (.char c :: ps, rest)
  | c :: rest =>
    if c < ' ' then none
    else do
      let (ps, rest) ← pieces rest
      return (.char c :: ps, rest)

/-- Whether a unit is the first half of a surrogate pair. -/
def isLead (n : Nat) : Bool := 0xD800 ≤ n && n < 0xDC00

/-- Whether a unit is the second half of a surrogate pair. -/
def isTrail (n : Nat) : Bool := 0xDC00 ≤ n && n < 0xE000

/-- The characters of the pieces, the halves of each surrogate pair joined; there are none if a
half is alone. -/
def joinPieces : List Piece → Option (List Char)
  | [] => some []
  | .char c :: ps => (joinPieces ps).map (c :: ·)
  | .unit n :: .unit m :: ps =>
    if isLead n then
      if isTrail m then
        (joinPieces ps).map (Char.ofNat (0x10000 + (n - 0xD800) * 0x400 + (m - 0xDC00)) :: ·)
      else none
    else if isTrail n then none
    else (joinPieces (.unit m :: ps)).map (Char.ofNat n :: ·)
  | .unit n :: ps =>
    if isLead n || isTrail n then none else (joinPieces ps).map (Char.ofNat n :: ·)

/-- A quoted text after its opening quote.  The text itself is absent where a half of a surrogate
pair is alone. -/
def quoted (cs : List Char) : Option (Option String × List Char) :=
  (pieces cs).map fun (ps, rest) => ((joinPieces ps).map String.ofList, rest)

/-! ### Numbers -/

/-- The number that decimal digits write. -/
def digitsValue (ds : List Char) : Nat := ds.foldl (fun n c => 10 * n + (c.toNat - '0'.toNat)) 0

/-- The exponent of a number after its digits: its value, if there is one, and the rest. -/
def exponentPart : List Char → Option (Option Int × List Char)
  | c :: rest =>
    if c = 'e' || c = 'E' then
      let (negative, rest) := match rest with
        | '-' :: r => (true, r)
        | '+' :: r => (false, r)
        | r => (false, r)
      match rest.takeWhile Char.isDigit with
      | [] => none
      | ds =>
        let n : Int := digitsValue ds
        some (some (if negative then -n else n), rest.dropWhile Char.isDigit)
    else some (none, c :: rest)
  | [] => some (none, [])

/-- The digits after a decimal point, if there is one, and the rest. -/
def fractionPart : List Char → Option (Option (List Char) × List Char)
  | '.' :: rest =>
    match rest.takeWhile Char.isDigit with
    | [] => none
    | ds => some (some ds, rest.dropWhile Char.isDigit)
  | rest => some (none, rest)

/-- A number without its sign.  A number with a point or an exponent is one of double precision,
and so is zero below zero. -/
def number (negative : Bool) (cs : List Char) : Option (Datum × List Char) := do
  let whole := cs.takeWhile Char.isDigit
  if whole.isEmpty || (whole.length > 1 && whole.head? = some '0') then none
  let (fraction, rest) ← fractionPart (cs.dropWhile Char.isDigit)
  let (exponent, rest) ← exponentPart rest
  match fraction, exponent with
  | none, none =>
    let n := digitsValue whole
    if negative && n = 0 then return (.real (.finite true 0 0), rest)
    else return (.int (if negative then -(n : Int) else n), rest)
  | _, _ =>
    let fraction := fraction.getD []
    let e := exponent.getD 0 - fraction.length
    return (.real (.ofScientific negative (digitsValue (whole ++ fraction)) e), rest)

/-! ### Values -/

/-- A record of members whose names may be garbled. -/
def recordOf (l : List (Option String × Datum)) : Datum :=
  match l.mapM fun m => m.1.map (·, m.2) with
  | some l => .record l
  | none => .garbled

mutual

/-- A value at the start of the text, and the rest. -/
def value : Nat → List Char → Option (Datum × List Char)
  | 0, _ => none
  | n + 1, cs =>
    match skipBlanks cs with
    | 'n' :: 'u' :: 'l' :: 'l' :: rest => some (.null, rest)
    | 't' :: 'r' :: 'u' :: 'e' :: rest => some (.bool true, rest)
    | 'f' :: 'a' :: 'l' :: 's' :: 'e' :: rest => some (.bool false, rest)
    | '"' :: rest => (quoted rest).map fun (s, rest) => (s.elim .garbled .text, rest)
    | '-' :: rest => number true rest
    | '[' :: rest =>
      match skipBlanks rest with
      | ']' :: rest => some (.list [], rest)
      | rest => (items n rest).map fun (l, rest) => (.list l, rest)
    | '\x7b' :: rest =>
      match skipBlanks rest with
      | '\x7d' :: rest => some (.record [], rest)
      | rest => (fields n rest).map fun (l, rest) => (recordOf l, rest)
    | rest => number false rest

/-- The values of a list that is not empty, up to its closing bracket. -/
def items : Nat → List Char → Option (List Datum × List Char)
  | 0, _ => none
  | n + 1, cs => do
    let (d, rest) ← value n cs
    match skipBlanks rest with
    | ',' :: rest => (items n rest).map fun (l, rest) => (d :: l, rest)
    | ']' :: rest => some ([d], rest)
    | _ => none

/-- The members of a record that is not empty, up to its closing brace. -/
def fields : Nat → List Char → Option (List (Option String × Datum) × List Char)
  | 0, _ => none
  | n + 1, cs =>
    match skipBlanks cs with
    | '"' :: rest => do
      let (name, rest) ← quoted rest
      match skipBlanks rest with
      | ':' :: rest => do
        let (d, rest) ← value n rest
        match skipBlanks rest with
        | ',' :: rest => (fields n rest).map fun (l, rest) => ((name, d) :: l, rest)
        | '\x7d' :: rest => some ([(name, d)], rest)
        | _ => none
      | _ => none
    | _ => none

end

/-- The datum that a text writes.  Every step of the reader takes a character off the text or
enters a value, so twice its length bounds them. -/
def read (s : String) : Option Datum :=
  let cs := s.toList
  match value (2 * cs.length + 2) cs with
  | some (d, rest) => if (skipBlanks rest).isEmpty then some d else none
  | none => none

end Groundwork.Json
