/-
Paths of files.

A path is a text whose components are parted by slashes.  Two paths with the same components are
the same path: repeated and final slashes do not count, and neither does a `.` after the first
component.

* `PathStep`, `FilePath` — components and paths;
* `FilePath.components` — what a path consists of; paths are ordered by it;
* `FilePath.join`, `FilePath.parent?`, `FilePath.fileName?`, `FilePath.extension?` — the parts of
  a path and putting paths together.
-/
import Groundwork.Table

set_option autoImplicit false

namespace Groundwork

/-- A component of a path. -/
inductive PathStep where
  /-- The root directory. -/
  | root
  /-- The directory where the path starts. -/
  | here
  /-- The directory above. -/
  | up
  /-- A name in a directory. -/
  | name (text : String)
deriving DecidableEq, Inhabited

/-- The text by which components are ordered. -/
def PathStep.rank : PathStep → String
  | .root => "0"
  | .here => "1"
  | .up => "2"
  | .name s => "3" ++ s

/-- A component as it is written. -/
def PathStep.text : PathStep → String
  | .root => ""
  | .here => "."
  | .up => ".."
  | .name s => s

/-- A path. -/
structure FilePath where
  /-- The path as it is written. -/
  text : String
deriving DecidableEq, Inhabited

namespace FilePath

/-- The texts between the slashes, without the empty ones. -/
def segments (p : FilePath) : List String :=
  ((p.text.toList.splitOn '/').filter (!·.isEmpty)).map String.ofList

/-- Whether the path starts at the root. -/
def isAbsolute (p : FilePath) : Bool := p.text.toList.head? == some '/'

/-- Whether the path ends with a slash. -/
def hasFinalSlash (p : FilePath) : Bool := p.text.toList.getLast? == some '/'

/-- The component that a text between slashes stands for. -/
def stepOf (s : String) : Option PathStep :=
  if s = "." then none else if s = ".." then some .up else some (.name s)

/-- The components of a path. -/
def components (p : FilePath) : List PathStep :=
  let steps := p.segments.filterMap stepOf
  if p.isAbsolute then .root :: steps
  else if p.segments.head? = some "." then .here :: steps
  else steps

/-- The path with the given components. -/
def ofComponents : List PathStep → FilePath
  | [.root] => ⟨"/"⟩
  | l => ⟨"/".intercalate (l.map PathStep.text)⟩

/-- The texts by which paths are ordered. -/
def ranks (p : FilePath) : List String := p.components.map PathStep.rank

instance : Ord FilePath := ⟨compareOn ranks⟩

instance : Std.TransOrd FilePath := inferInstanceAs (Std.TransCmp (compareOn ranks))

/-- A path taken from a directory; a path from the root stands for itself. -/
def join (dir p : FilePath) : FilePath :=
  if p.isAbsolute then p
  else if dir.text.isEmpty || dir.hasFinalSlash then ⟨dir.text ++ p.text⟩
  else ⟨dir.text ++ "/" ++ p.text⟩

/-- The path of the directory that a path is in. -/
def parent? (p : FilePath) : Option FilePath :=
  match p.components.reverse with
  | [] => none
  | .root :: _ => none
  | _ :: front => some (ofComponents front.reverse)

/-- The name at the end of a path. -/
def fileName? (p : FilePath) : Option String :=
  match p.components.getLast? with
  | some (.name s) => some s
  | _ => none

/-- What comes after the last dot of the name, unless that dot starts the name. -/
def extension? (p : FilePath) : Option String := do
  let s ← p.fileName?
  match s.toList.splitOn '.' with
  | [] | [_] => none
  | [[], _] => none
  | parts => parts.getLast?.map String.ofList

end FilePath

end Groundwork
