/-
Data without a type of their own.

A `Datum` is what a data format can express.  The types of the library are decoded from it and
encoded into it.  A decoder asks for the members of a record by name; a record may also be given
as the list of its members in order, and the last ones may then be left out.

* `Datum` — the values of the data formats;
* `Datum.text?`, `Datum.listOf`, `Datum.tableOf`, `Datum.optional`, `Datum.enumOf` — decoders;
* `Datum.members` — the members of a record, by their names or by their places;
* `Datum.ofTable` — encodes a table.
-/
import Groundwork.Binary64
import Groundwork.Table

set_option autoImplicit false

namespace Groundwork

/-- A value of a data format. -/
inductive Datum where
  /-- The value that stands for none. -/
  | null
  /-- A truth value. -/
  | bool (value : Bool)
  /-- A whole number. -/
  | int (value : Int)
  /-- A number of double precision. -/
  | real (value : Binary64)
  /-- A text. -/
  | text (value : String)
  /-- A list. -/
  | list (values : List Datum)
  /-- Named members, as often and in the order in which they were written. -/
  | record (members : List (String × Datum))
  /-- A well-formed value that no type can be decoded from. -/
  | garbled
deriving Inhabited

namespace Datum

/-! ### Decoding -/

/-- A text. -/
def text? : Datum → Option String
  | .text s => some s
  | _ => none

/-- A whole number. -/
def int? : Datum → Option Int
  | .int n => some n
  | _ => none

/-- A list, each of its values decoded. -/
def listOf {α : Type} (decode : Datum → Option α) : Datum → Option (List α)
  | .list l => l.mapM decode
  | _ => none

/-- A record as a table, each of its values decoded; of a repeated name the last value counts. -/
def tableOf {α : Type} (decode : Datum → Option α) : Datum → Option (Table String α)
  | .record l => (l.mapM fun m => (decode m.2).map (m.1, ·)).map .ofList
  | _ => none

/-- A value that may be absent. -/
def optional {α : Type} (decode : Datum → Option α) : Datum → Option (Option α)
  | .null => some none
  | d => (decode d).map some

/-- One of several named values: its name, or a record with its name and nothing under it. -/
def enumOf {α : Type} (decode : String → Option α) : Datum → Option α
  | .text s => decode s
  | .record [(s, .null)] => decode s
  | _ => none

/-- The members of a record in the order of `names`, each with the names it goes by.  A record
that gives a member twice is refused, and so is a list with more values than there are members. -/
def members (names : List (List String)) : Datum → Option (List (Option Datum))
  | .record l => names.mapM fun ns =>
    match l.filter fun m => ns.contains m.1 with
    | [] => some none
    | [m] => some (some m.2)
    | _ => none
  | .list l =>
    if l.length ≤ names.length then
      some (l.map some ++ List.replicate (names.length - l.length) none)
    else none
  | _ => none

/-- A member that has to be there. -/
def required {α : Type} (decode : Datum → Option α) (m : Option Datum) : Option α := m.bind decode

/-- A member with a value that stands in for it. -/
def withDefault {α : Type} (default : α) (decode : Datum → Option α) : Option Datum → Option α
  | none => some default
  | some d => decode d

/-! ### Encoding -/

/-- A table as a record. -/
def ofTable {α : Type} (encode : α → Datum) (t : Table String α) : Datum :=
  .record (t.toList.map fun e => (e.1, encode e.2))

/-- A value that may be absent. -/
def ofOption {α : Type} (encode : α → Datum) : Option α → Datum
  | none => .null
  | some a => encode a

/-- A table of texts as a record. -/
def ofTexts (t : Table String String) : Datum := ofTable .text t

end Datum

end Groundwork
