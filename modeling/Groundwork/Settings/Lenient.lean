/-
Settings in other words.

Settings come from files of several formats and from the environment, where everything is text.
So a number may stand for a text and a text for a number, and letter case does not count.

* `Settings.lenientText`, `Settings.lenientCount`, `Settings.lenientFormat` — what may stand for a
  text, a number and a format;
* `Settings.lenient` — the reading made of them.
-/
import Groundwork.Numeral
import Groundwork.Settings.Basic

set_option autoImplicit false

namespace Groundwork.Settings

/-- A text, or the text of a truth value or a number. -/
def lenientText : Datum → Option String
  | .text s => some s
  | .bool b => some (toString b)
  | .int n => some (toString n)
  | .real x => some x.text
  | _ => none

/-- The number that a text stands for: a word that agrees or disagrees, or digits. -/
def countOfText (s : String) : Option Nat :=
  if ["true", "on", "yes"].contains s.toLower then some 1
  else if ["false", "off", "no"].contains s.toLower then some 0
  else
    let ds := match s.toList with
      | '+' :: ds => ds
      | ds => ds
    (Numeral.nat? 10 ds).filter isCount

/-- The largest number. -/
def largestCount : Nat := Nat.pow 2 64 - 1

/-- The number nearest to a number of double precision. -/
def countOfReal (x : Binary64) : Nat :=
  match x with
  | .nan => 0
  | .infinite negative => if negative then 0 else largestCount
  | x => min (x.round?.getD 0).toNat largestCount

/-- A number, or what stands for one. -/
def lenientCount : Datum → Option Nat
  | .int (.ofNat n) => some n
  | .bool b => some b.toNat
  | .real x => some (countOfReal x)
  | .text s => countOfText s
  | _ => none

/-- The name of a format in any case, or a record with only that name. -/
def lenientFormat : Datum → Option BlueprintFormat
  | .text s => BlueprintFormat.ofName? s.toLower
  | .record [(s, _)] => BlueprintFormat.ofName? s.toLower
  | _ => none

/-- The members of a section, which may also be given as a list in the order of their names. -/
def lenientMembers (names : List String) : Datum → Option (List (Option Datum))
  | .record l => some (names.map fun k => l.lookup k)
  | .list l => some ((List.range names.length).map fun i => l[i]?)
  | _ => none

/-- Whatever may stand for a setting does. -/
def lenient : Reading where
  members := lenientMembers
  text := lenientText
  count := lenientCount
  format := lenientFormat

end Groundwork.Settings
