/-
Texts that YAML would not read as texts.

Written without quotes, such a text would come back as nothing, a truth value or a number.

* `Yaml.isNull`, `Yaml.isBool`, `Yaml.isInt`, `Yaml.isReal` — what a text would be read as;
* `Yaml.isAmbiguous` — whether a text needs quotes to remain a text.
-/
import Groundwork.Numeral

set_option autoImplicit false

namespace Groundwork.Yaml

/-- Whether a text stands for nothing. -/
def isNull (s : String) : Bool := ["", "~", "null", "Null", "NULL"].contains s

/-- The truth value that a text stands for. -/
def bool? (s : String) : Option Bool :=
  if ["true", "True", "TRUE"].contains s then some true
  else if ["false", "False", "FALSE"].contains s then some false
  else none

/-- Whether a text is made of digits and has a zero before them, after an optional sign. -/
def isZeroLed (cs : List Char) : Bool :=
  match (Numeral.sign cs).2 with
  | '0' :: d :: rest => (d :: rest).all Char.isDigit
  | _ => false

/-- The base that a mark before digits asks for, and the digits. -/
def basePrefix? : List Char → Option (Nat × List Char)
  | '0' :: 'x' :: ds => some (16, ds)
  | '0' :: 'o' :: ds => some (8, ds)
  | '0' :: 'b' :: ds => some (2, ds)
  | _ => none

/-- The whole number that a text stands for, if 128 bits can hold it. -/
def int? (cs : List Char) : Option Int :=
  let (negative, rest) := Numeral.sign cs
  let value := match basePrefix? rest with
    | some (base, ds) => Numeral.nat? base ds
    | none => if isZeroLed cs then none else Numeral.nat? 10 rest
  value.bind fun n =>
    if negative then some (-(n : Int)) |>.filter (Numeral.isSigned 128)
    else if Numeral.isUnsigned 128 n then some n else none

/-- Whether a text stands for a number of double precision. -/
def isReal (cs : List Char) : Bool :=
  let (negative, rest) := Numeral.sign cs
  if [".inf", ".Inf", ".INF"].contains (String.ofList rest) then true
  else if [".nan", ".NaN", ".NAN"].contains (String.ofList cs) then true
  else if isZeroLed cs then false
  else
    match Numeral.decimal? rest with
    | some (digits, exponent) =>
      match Binary64.ofScientific negative digits exponent with
      | .finite .. => true
      | _ => false
    | none => false

/-- Whether a text without quotes would not be read as a text, or might not be. -/
def isAmbiguous (s : String) : Bool :=
  let cs := s.toList
  isNull s || (bool? s).isSome || (int? cs).isSome || isReal cs || isZeroLed cs

end Groundwork.Yaml
