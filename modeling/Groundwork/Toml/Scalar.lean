/-
Scalars of TOML text.

* `Toml.word?` — what an unquoted value stands for: a truth value, a number, a date or a time;
* `Toml.basic`, `Toml.literal`, `Toml.longBasic`, `Toml.longLiteral` — the four kinds of quoted
  texts, each read up to and with its closing mark.
-/
import Groundwork.Datum
import Groundwork.Numeral

set_option autoImplicit false

namespace Groundwork.Toml

/-! ### Characters -/

/-- Spaces and tabs. -/
def isBlank (c : Char) : Bool := c = ' ' || c = '\t'

/-- The characters that may stand in comments and in literal texts on one line. -/
def isPlain (c : Char) : Bool := c = '\t' || (' ' ≤ c && c ≠ '\x7f')

/-- The characters of keys without quotes. -/
def isKeyChar (c : Char) : Bool := c.isAlphanum || c = '_' || c = '-'

/-- The characters of values without quotes. -/
def isWordChar (c : Char) : Bool := isKeyChar c || c = '+' || c = '.' || c = ':'

/-- The text after a line break, if one is next. -/
def lineBreak? : List Char → Option (List Char)
  | '\n' :: rest => some rest
  | '\r' :: '\n' :: rest => some rest
  | _ => none

/-! ### Quoted texts -/

/-- The character that a letter after a backslash stands for. -/
def shortEscape? : Char → Option Char
  | 'b' => some '\x08'
  | 't' => some '\t'
  | 'n' => some '\n'
  | 'f' => some '\x0c'
  | 'r' => some '\r'
  | '"' => some '"'
  | '\\' => some '\\'
  | _ => none

/-- The character that a backslash and what follows it stand for, and the rest. -/
def escape? : List Char → Option (Char × List Char)
  | 'u' :: rest => hex 4 rest
  | 'U' :: rest => hex 8 rest
  | c :: rest => (shortEscape? c).map (·, rest)
  | [] => none
where
  /-- The character with the number that the next digits write. -/
  hex (width : Nat) (cs : List Char) : Option (Char × List Char) := do
    if cs.length < width then none
    let n ← Numeral.nat? 16 (cs.take width)
    if n.isValidChar then some (Char.ofNat n, cs.drop width) else none

/-- A text in double quotes on one line, after its opening quote. -/
def basic : Nat → List Char → Option (List Char × List Char)
  | 0, _ => none
  | n + 1, cs =>
    match cs with
    | [] => none
    | '"' :: rest => some ([], rest)
    | '\\' :: rest => do
      let (c, rest) ← escape? rest
      let (s, rest) ← basic n rest
      return (c :: s, rest)
    | c :: rest => do
      if !isPlain c then none
      let (s, rest) ← basic n rest
      return (c :: s, rest)

/-- A text in single quotes on one line, after its opening quote. -/
def literal : List Char → Option (List Char × List Char)
  | [] => none
  | '\'' :: rest => some ([], rest)
  | c :: rest =>
    if isPlain c then (literal rest).map fun (s, rest) => (c :: s, rest) else none

/-- What the quotes at the start of the text mean for a text in triple quotes: the quotes that
belong to it, and the rest if the others close it. -/
def closing (quote : Char) (cs : List Char) : List Char × Option (List Char) :=
  let run := (cs.takeWhile (· == quote)).length
  if run < 3 then (List.replicate run quote, none)
  else
    let inside := min (run - 3) 2
    (List.replicate inside quote, some (cs.drop (inside + 3)))

/-- A text in triple double quotes, after its opening quotes. -/
def longBasic : Nat → List Char → Option (List Char × List Char)
  | 0, _ => none
  | n + 1, cs =>
    match cs with
    | [] => none
    | '"' :: _ =>
      match closing '"' cs with
      | (quotes, some rest) => some (quotes, rest)
      | (quotes, none) => do
        let (s, rest) ← longBasic n (cs.drop quotes.length)
        return (quotes ++ s, rest)
    | '\\' :: rest =>
      -- a backslash at the end of a line takes all blanks and breaks after it away
      match lineBreak? (rest.dropWhile isBlank) with
      | some rest => longBasic n (gap rest.length rest)
      | none => do
        let (c, rest) ← escape? rest
        let (s, rest) ← longBasic n rest
        return (c :: s, rest)
    | c :: rest =>
      match lineBreak? cs with
      | some rest => do
        let (s, rest) ← longBasic n rest
        return ('\n' :: s, rest)
      | none => do
        if !isPlain c then none
        let (s, rest) ← longBasic n rest
        return (c :: s, rest)
where
  /-- The text after blanks and breaks. -/
  gap : Nat → List Char → List Char
    | 0, cs => cs
    | n + 1, cs =>
      match cs with
      | [] => []
      | c :: rest =>
        if isBlank c then gap n rest
        else
          match lineBreak? cs with
          | some rest => gap n rest
          | none => cs

/-- A text in triple single quotes, after its opening quotes. -/
def longLiteral : Nat → List Char → Option (List Char × List Char)
  | 0, _ => none
  | n + 1, cs =>
    match cs with
    | [] => none
    | '\'' :: _ =>
      match closing '\'' cs with
      | (quotes, some rest) => some (quotes, rest)
      | (quotes, none) => do
        let (s, rest) ← longLiteral n (cs.drop quotes.length)
        return (quotes ++ s, rest)
    | c :: rest =>
      match lineBreak? cs with
      | some rest => do
        let (s, rest) ← longLiteral n rest
        return ('\n' :: s, rest)
      | none => do
        if !isPlain c then none
        let (s, rest) ← longLiteral n rest
        return (c :: s, rest)

/-- A quoted text at the start of the text, and the rest; `long` says whether it may be in triple
quotes. -/
def quoted? (long : Bool) (cs : List Char) : Option (String × List Char) :=
  let finish (r : Option (List Char × List Char)) : Option (String × List Char) :=
    r.map fun (s, rest) => (String.ofList s, rest)
  let fresh (cs : List Char) : List Char := (lineBreak? cs).getD cs
  match cs with
  | '"' :: '"' :: '"' :: rest =>
    if long then finish (longBasic (cs.length + 1) (fresh rest)) else some ("", '"' :: rest)
  | '\'' :: '\'' :: '\'' :: rest =>
    if long then finish (longLiteral (cs.length + 1) (fresh rest)) else some ("", '\'' :: rest)
  | '"' :: rest => finish (basic (cs.length + 1) rest)
  | '\'' :: rest => finish (literal rest)
  | _ => none

/-! ### Numbers -/

/-- The digits of a number, in which single underscores may stand between digits. -/
def digits? (isDigit : Char → Bool) : List Char → Option (List Char)
  | [] => none
  | [d] => if isDigit d then some [d] else none
  | d :: '_' :: rest => if isDigit d then (digits? isDigit rest).map (d :: ·) else none
  | d :: rest => if isDigit d then (digits? isDigit rest).map (d :: ·) else none

/-- The digits of a whole number: without leading zeros. -/
def wholeDigits? (cs : List Char) : Option (List Char) :=
  match digits? Char.isDigit cs with
  | some ['0'] => some ['0']
  | some ('0' :: _) => none
  | ds => ds

/-- The number that digits of a base write. -/
def based? (base : Nat) (cs : List Char) : Option Int := do
  let ds ← digits? (fun c => c.isAlphanum) cs
  let n : Int ← Numeral.nat? base ds
  if Numeral.isSigned 64 n then some n else none

/-- A whole number of 64 bits. -/
def int? (cs : List Char) : Option Int :=
  match cs with
  | '0' :: 'x' :: ds => based? 16 ds
  | '0' :: 'o' :: ds => based? 8 ds
  | '0' :: 'b' :: ds => based? 2 ds
  | _ => do
    let (negative, rest) := Numeral.sign cs
    let n : Int ← Numeral.nat? 10 (← wholeDigits? rest)
    let n := if negative then -n else n
    if Numeral.isSigned 64 n then some n else none

/-- A number of double precision: with a fraction, an exponent or both. -/
def real? (cs : List Char) : Option Binary64 := do
  let (negative, rest) := Numeral.sign cs
  if rest = ['i', 'n', 'f'] then return .infinite negative
  if rest = ['n', 'a', 'n'] then return .nan
  let isMark (c : Char) : Bool := c = 'e' || c = 'E'
  let mantissa := rest.takeWhile (!isMark ·)
  let whole ← wholeDigits? (mantissa.takeWhile (· != '.'))
  let fraction ← match mantissa.dropWhile (· != '.') with
    | [] => some []
    | _ :: ds => digits? Char.isDigit ds
  let exponent ← match rest.dropWhile (!isMark ·) with
    | [] => if fraction.isEmpty then none else some (0 : Int)
    | _ :: e =>
      let (below, ds) := Numeral.sign e
      (digits? Char.isDigit ds).bind fun ds =>
        (Numeral.nat? 10 ds).map fun n => if below then -(n : Int) else n
  let n ← Numeral.nat? 10 (whole ++ fraction)
  match Binary64.ofScientific negative n (exponent - fraction.length) with
  | .infinite false => none
  | x => some x

/-! ### Dates and times -/

/-- The number that two digits write, if it lies in a range. -/
def twoDigits? (low high : Nat) (a b : Char) : Option Nat := do
  if !a.isDigit || !b.isDigit then none
  let n ← Numeral.nat? 10 [a, b]
  if low ≤ n && n ≤ high then some n else none

/-- The number of days of a month. -/
def monthLength (year month : Nat) : Nat :=
  if month = 2 then
    if year % 4 = 0 && (year % 100 ≠ 0 || year % 400 = 0) then 29 else 28
  else if [4, 6, 9, 11].contains month then 30
  else 31

/-- A date, and the rest. -/
def date? : List Char → Option (String × List Char)
  | a :: b :: c :: d :: '-' :: e :: f :: '-' :: g :: h :: rest => do
    if [a, b, c, d].any (!·.isDigit) then none
    let year ← Numeral.nat? 10 [a, b, c, d]
    let month ← twoDigits? 1 12 e f
    let _ ← twoDigits? 1 (monthLength year month) g h
    return (String.ofList [a, b, c, d, '-', e, f, '-', g, h], rest)
  | _ => none

/-- A fraction of a second with up to nine digits, as it is written again. -/
def secondFraction (ds : List Char) : String :=
  let kept := ((ds.take 9).reverse.dropWhile (· == '0')).reverse
  if kept.isEmpty then "" else "." ++ String.ofList kept

/-- A time, and the rest. -/
def time? : List Char → Option (String × List Char)
  | a :: b :: ':' :: c :: d :: ':' :: e :: f :: rest => do
    let _ ← twoDigits? 0 23 a b
    let _ ← twoDigits? 0 59 c d
    let _ ← twoDigits? 0 60 e f
    let text := String.ofList [a, b, ':', c, d, ':', e, f]
    match rest with
    | '.' :: more =>
      let ds := more.takeWhile Char.isDigit
      if ds.isEmpty then none
      return (text ++ secondFraction ds, more.dropWhile Char.isDigit)
    | _ => return (text, rest)
  | _ => none

/-- A distance from universal time, as it is written again; nothing may follow it. -/
def offset? : List Char → Option String
  | [] => some ""
  | ['z'] | ['Z'] => some "Z"
  | [sign, a, b, ':', c, d] => do
    if sign ≠ '+' && sign ≠ '-' then none
    let hours ← twoDigits? 0 23 a b
    let minutes ← twoDigits? 0 59 c d
    let sign := if hours = 0 && minutes = 0 then '+' else sign
    return String.ofList [sign, a, b, ':', c, d]
  | _ => none

/-- A date, a time or both, as they are written again. -/
def moment? (cs : List Char) : Option String :=
  match date? cs with
  | some (date, []) => some date
  | some (date, mark :: rest) => do
    if mark ≠ 'T' && mark ≠ 't' && mark ≠ ' ' then none
    let (time, rest) ← time? rest
    return date ++ "T" ++ time ++ (← offset? rest)
  | none =>
    match time? cs with
    | some (time, []) => some time
    | _ => none

/-! ### Words -/

/-- What a value without quotes stands for. -/
def word? (cs : List Char) : Option Datum :=
  if cs = ['t', 'r', 'u', 'e'] then some (.bool true)
  else if cs = ['f', 'a', 'l', 's', 'e'] then some (.bool false)
  else
    match moment? cs with
    | some s => some (.text s)
    | none =>
      match int? cs with
      | some n => some (.int n)
      | none => (real? cs).map .real

/-- The value without quotes at the start of the text, and the rest.  A date and a time may be
parted by one space. -/
def word (cs : List Char) : Option (Datum × List Char) :=
  let first := cs.takeWhile isWordChar
  let rest := cs.dropWhile isWordChar
  let joined : Option (Datum × List Char) :=
    match date? first, rest with
    | some (_, []), ' ' :: more =>
      (word? (first ++ ' ' :: more.takeWhile isWordChar)).map (·, more.dropWhile isWordChar)
    | _, _ => none
  joined.or ((word? first).map (·, rest))

end Groundwork.Toml
