/-
Laying data over data.

Settings come from several layers.  A later layer adds to the records of an earlier one and
replaces everything else.  Names are compared without regard to case.

* `Datum.layOver` — one datum laid over another;
* `Datum.nest` — a datum under a path of names; `Datum.namePath` — the path that a name stands for;
* `Datum.overlay` — a layer, whose names may be paths, laid over a datum.
-/
import Groundwork.Datum

set_option autoImplicit false

namespace Groundwork.Datum

/-- The named members of a record; nothing else has any. -/
def namedMembers : Datum → List (String × Datum)
  | .record l => l
  | _ => []

/-- Puts a value under a name, in the place of what was there or at the end. -/
def assign (name : String) (d : Datum) : List (String × Datum) → List (String × Datum)
  | [] => [(name, d)]
  | (k, old) :: rest => if k = name then (name, d) :: rest else (k, old) :: assign name d rest

mutual

/-- A datum laid over another: a record adds its members, anything else replaces what it covers.
A record without members leaves what is there. -/
def layOver (old : Datum) : Datum → Datum
  | .record l => layMembers old l
  | d => d

/-- Members laid over a datum. -/
def layMembers (old : Datum) : List (String × Datum) → Datum
  | [] => old
  | (name, d) :: rest =>
    let k := name.toLower
    let under := (old.namedMembers.lookup k).getD (.record [])
    layMembers (.record (assign k (layOver under d) old.namedMembers)) rest

end

/-- A datum under a path of names. -/
def nest (path : List String) (d : Datum) : Datum :=
  path.foldr (fun k d => .record [(k, d)]) d

/-- The characters of the names in a path. -/
def isNameChar (c : Char) : Bool := c.isAlphanum || c = ' ' || c = '_' || c = '-'

/-- The path that a name stands for: its parts between dots, or the name itself if one of the parts
is no name. -/
def namePath (name : String) : List String :=
  let parts := name.toList.splitOn '.'
  if parts.all fun cs => !cs.isEmpty && cs.all isNameChar then parts.map String.ofList else [name]

/-- A layer laid over a datum.  The names in the layer may be paths. -/
def overlay (old layer : Datum) : Datum :=
  layer.namedMembers.foldl (fun d m => d.layOver (nest (namePath m.1) m.2)) old

end Groundwork.Datum
