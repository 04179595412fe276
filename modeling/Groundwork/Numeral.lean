/-
Numbers written as text.

* `Numeral.nat?` — the number that digits of a base write;
* `Numeral.int?` — a whole number with an optional sign;
* `Numeral.decimal?` — a decimal number with a fraction or an exponent;
* `Numeral.real?` — a decimal number or one of the words for infinities and for no number;
* `Numeral.isUnsigned`, `Numeral.isSigned` — the numbers that a given number of bits can hold.
-/
import Groundwork.Binary64

set_option autoImplicit false

namespace Groundwork.Numeral

/-- The value of a digit or letter. -/
def digit? (c : Char) : Option Nat :=
  if c.isDigit then some (c.toNat - '0'.toNat)
  else if c.isLower then some (c.toNat - 'a'.toNat + 10)
  else if c.isUpper then some (c.toNat - 'A'.toNat + 10)
  else none

/-- The number that the digits of a base write, most significant first; there is at least one. -/
def nat? (base : Nat) (cs : List Char) : Option Nat :=
  if cs.isEmpty then none
  else cs.foldlM (fun n c => (digit? c).bind fun d => if d < base then some (base * n + d) else none) 0

/-- A sign, if there is one, and the rest: whether the sign is a minus. -/
def sign : List Char → Bool × List Char
  | '-' :: cs => (true, cs)
  | '+' :: cs => (false, cs)
  | cs => (false, cs)

/-- A whole number in decimal digits with an optional sign. -/
def int? (cs : List Char) : Option Int :=
  let (negative, ds) := sign cs
  (nat? 10 ds).map fun n => if negative then -(n : Int) else n

/-- The digits and the exponent of a decimal number without its sign. -/
def decimal? (cs : List Char) : Option (Nat × Int) := do
  let whole := cs.takeWhile Char.isDigit
  let rest := cs.dropWhile Char.isDigit
  let (fraction, rest) := match rest with
    | '.' :: r => (r.takeWhile Char.isDigit, r.dropWhile Char.isDigit)
    | r => ([], r)
  let digits ← nat? 10 (whole ++ fraction)
  let exponent ← match rest with
    | [] => some 0
    | c :: r => if c = 'e' || c = 'E' then int? r else none
  return (digits, exponent - fraction.length)

/-- A number of double precision: a decimal number, or a word in any letter case. -/
def real? (cs : List Char) : Option Binary64 :=
  let (negative, rest) := sign cs
  let word := String.ofList (rest.map Char.toLower)
  if word = "inf" || word = "infinity" then some (.infinite negative)
  else if word = "nan" then some .nan
  else (decimal? rest).map fun (digits, exponent) => .ofScientific negative digits exponent

/-! ### Ranges -/

/-- Whether so many bits can hold a number. -/
def isUnsigned (bits n : Nat) : Bool := n < Nat.pow 2 bits

/-- Whether so many bits can hold a number, one of them its sign. -/
def isSigned (bits : Nat) (n : Int) : Bool :=
  let bound : Int := Nat.pow 2 (bits - 1)
  decide (-bound ≤ n ∧ n < bound)

end Groundwork.Numeral
