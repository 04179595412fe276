/-!
Numbers of double precision.

A finite number is a whole number of at most 53 bits times a power of two.  All steps are exact
arithmetic on whole numbers, so that nothing depends on the arithmetic of a machine.

* `Binary64` — the numbers, with two infinities and one value that is no number;
* `Binary64.ofScientific` — the number nearest to a decimal, ties going to the even neighbour;
* `Binary64.text` — the shortest digits that read back, written without an exponent;
* `Binary64.round` — the nearest whole number, halves going away from zero.
-/

set_option autoImplicit false

namespace Groundwork

/-- A number of double precision. -/
inductive Binary64 where
  /-- The number `mantissa * 2 ^ exponent`, below zero if `negative` holds. -/
  | finite (negative : Bool) (mantissa : Nat) (exponent : Int)
  /-- An infinity. -/
  | infinite (negative : Bool)
  /-- No number. -/
  | nan
deriving DecidableEq, Inhabited

namespace Binary64

/-! ### Fractions -/

/-- A fraction scaled by a power of a base: numerator and denominator. -/
def scale (base num den : Nat) (e : Int) : Nat × Nat :=
  if e ≥ 0 then (num * base.pow e.toNat, den) else (num, den * base.pow (-e).toNat)

/-- The quotient rounded to the nearest whole number, a tie going to the even one. -/
def roundEven (num den : Nat) : Nat :=
  let q := num / den
  let r := 2 * (num % den)
  if r > den || (r = den && q % 2 = 1) then q + 1 else q

/-! ### Reading -/

/-- The least exponent of a finite number. -/
def minExponent : Int := -1074

/-- The number nearest to a fraction. -/
def ofFraction (negative : Bool) (num den : Nat) : Binary64 :=
  if num = 0 then .finite negative 0 0
  else
    let guess : Int := (num.log2 : Int) - (den.log2 : Int) - 52
    -- the guess is one too large where the leading digits of the numerator are smaller
    let (n, d) := scale 2 num den (-guess)
    let fitted := if n / d < Nat.pow 2 52 then guess - 1 else guess
    let e := max fitted minExponent
    let (n, d) := scale 2 num den (-e)
    let m := roundEven n d
    let (m, e) := if m = Nat.pow 2 53 then (Nat.pow 2 52, e + 1) else (m, e)
    if e > 971 then .infinite negative else .finite negative m e

/-- The number nearest to `digits * 10 ^ exponent`. -/
def ofScientific (negative : Bool) (digits : Nat) (exponent : Int) : Binary64 :=
  let size : Int := (Nat.toDigits 10 digits).length
  if digits = 0 then .finite negative 0 0
  else if exponent + size > 310 then .infinite negative
  else if exponent + size < -330 then .finite negative 0 0
  else
    let (n, d) := scale 10 digits 1 exponent
    ofFraction negative n d

/-- The number nearest to a whole number. -/
def ofInt (n : Int) : Binary64 := ofFraction (n < 0) n.natAbs 1

/-! ### Writing -/

/-- The ends of the interval of reals that round to a number, as numerators over four times the
unit of its exponent, with the number itself in the middle. -/
def interval (m : Nat) (e : Int) : Nat × Nat × Nat :=
  if m = Nat.pow 2 52 && e > minExponent then (4 * m - 1, 4 * m, 4 * m + 2)
  else (4 * m - 2, 4 * m, 4 * m + 2)

/-- The multiple of `10 ^ k` that is nearest to the number among those in its interval. -/
def candidate? (m : Nat) (e k : Int) : Option Nat :=
  let (lo, mid, hi) := interval m e
  -- all four sides as whole numbers over one denominator
  let (unit2, den2) := scale 2 1 1 (e - 2)
  let (unit10, den10) := scale 10 1 1 k
  let side (x : Nat) : Nat := x * unit2 * den10
  let grid (x : Nat) : Nat := x * unit10 * den2
  let inside (x : Nat) : Bool :=
    if m % 2 = 0 then side lo ≤ grid x && grid x ≤ side hi
    else side lo < grid x && grid x < side hi
  let below := side mid / grid 1
  let above := below + 1
  match inside below, inside above with
  | true, true =>
    if side mid - grid below ≤ grid above - side mid then some below else some above
  | true, false => some below
  | false, true => some above
  | false, false => none

/-- The shortest digits in the interval of a number, and the power of ten of the last of them. -/
def shortest (m : Nat) (e : Int) : Nat × Int :=
  let (n, d) := scale 2 m 1 e
  let lead : Int := (Nat.toDigits 10 n).length - (Nat.toDigits 10 d).length
  let grids : List Int := (List.range 20).map fun i => lead + 1 - Int.ofNat i
  (grids.findSome? fun k => (candidate? m e k).bind fun x => if x = 0 then none else some (x, k)).getD
    (m, 0)

/-- Digits at a power of ten, written without an exponent. -/
def positional (digits : Nat) (exponent : Int) : String :=
  if exponent ≥ 0 then toString (digits * Nat.pow 10 exponent.toNat)
  else
    let places := (-exponent).toNat
    let ds := Nat.toDigits 10 digits
    let ds := List.replicate (places + 1 - ds.length) '0' ++ ds
    String.ofList (ds.take (ds.length - places) ++ '.' :: ds.drop (ds.length - places))

/-- The text of a number: the shortest digits that read back. -/
def text : Binary64 → String
  | .nan => "NaN"
  | .infinite negative => if negative then "-inf" else "inf"
  | .finite negative m e =>
    (if negative then "-" else "") ++
      if m = 0 then "0"
      else
        let (digits, exponent) := shortest m e
        positional digits exponent

/-! ### Whole numbers -/

/-- The nearest whole number, halves going away from zero; there is none for an infinity. -/
def round? : Binary64 → Option Int
  | .finite negative m e =>
    let (n, d) := scale 2 m 1 e
    let q := (2 * n + d) / (2 * d)
    some (if negative then -(q : Int) else q)
  | _ => none

end Binary64

end Groundwork
