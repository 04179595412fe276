/-
Files and directories.

A disk holds directories and files under their places, which are lists of names from the root.  A
path is followed one name at a time; the first step that cannot be taken decides the failure.

* `DiskFault` — why the disk refuses an operation, with its text;
* `Disk` — the entries and the working directory; `Disk.resolve` — the place a path leads to;
* `Disk.read`, `Disk.readText`, `Disk.create`, `Disk.write`, `Disk.makeDirectory`,
  `Disk.makeDirectories` — the operations.
-/
import Groundwork.Storage.Path

set_option autoImplicit false

namespace Groundwork

/-- Why the disk refuses an operation. -/
inductive DiskFault where
  /-- There is nothing at this place. -/
  | notFound
  /-- There is something at this place. -/
  | exists
  /-- A file stands where a directory is needed. -/
  | notDirectory
  /-- A directory stands where a file is needed. -/
  | isDirectory
  /-- A name has more than 255 bytes, or a path more than 4095. -/
  | nameTooLong
  /-- The path holds a character that no name may have. -/
  | badName
  /-- The content is not text. -/
  | notText
deriving DecidableEq, Inhabited

/-- The text of a failure. -/
def DiskFault.message : DiskFault → String
  | .notFound => "No such file or directory (os error 2)"
  | .exists => "File exists (os error 17)"
  | .notDirectory => "Not a directory (os error 20)"
  | .isDirectory => "Is a directory (os error 21)"
  | .nameTooLong => "File name too long (os error 36)"
  | .badName => "file name contained an unexpected NUL byte"
  | .notText => "stream did not contain valid UTF-8"

/-- What stands at a place. -/
inductive DiskEntry where
  /-- A directory. -/
  | directory
  /-- A file with its content. -/
  | file (content : ByteArray)
deriving Inhabited

instance : DecidableEq DiskEntry
  | .directory, .directory => isTrue rfl
  | .file a, .file b =>
    decidable_of_iff (a.data = b.data) ⟨fun h => congrArg _ (ByteArray.ext h), fun h => by
      injection h with h; rw [h]⟩
  | .directory, .file _ => isFalse (by simp)
  | .file _, .directory => isFalse (by simp)

/-- A place: the names that lead to it from the root. -/
abbrev Place := List String

/-- Files and directories. -/
structure Disk where
  /-- The entries by their places; the root has none and is a directory. -/
  entries : Table Place DiskEntry := ∅
  /-- The directory from which relative paths start. -/
  cwd : Place := []
deriving Inhabited

namespace Disk

/-- What stands at a place. -/
def entry? (d : Disk) (p : Place) : Option DiskEntry :=
  if p.isEmpty then some .directory else d.entries.get? p

/-- The directory at a place, which has to be one. -/
def requireDirectory (d : Disk) (p : Place) : Except DiskFault Place :=
  match d.entry? p with
  | some .directory => .ok p
  | some (.file _) => .error .notDirectory
  | none => .error .notFound

/-- A name that may stand in a directory. -/
def checkName (s : String) : Except DiskFault String :=
  if s.utf8ByteSize > 255 then .error .nameTooLong else .ok s

/-- The place one step from a directory. -/
def enter (d : Disk) (p : Place) (segment : String) : Except DiskFault Place := do
  let p ← d.requireDirectory p
  if segment = "." then return p
  if segment = ".." then return p.dropLast
  let next := p ++ [← checkName segment]
  if d.entry? next |>.isSome then return next else throw .notFound

/-- The place where a path starts; paths that no system call takes are refused here. -/
def origin (d : Disk) (path : FilePath) : Except DiskFault Place :=
  if path.text.contains '\x00' then .error .badName
  else if path.text.isEmpty then .error .notFound
  else if path.text.utf8ByteSize > 4095 then .error .nameTooLong
  else .ok (if path.isAbsolute then [] else d.cwd)

/-- The place that a path leads to. -/
def resolve (d : Disk) (path : FilePath) : Except DiskFault Place := do
  let p ← path.segments.foldlM d.enter (← d.origin path)
  if path.hasFinalSlash then d.requireDirectory p else return p

/-- Whether a path leads to a directory. -/
def isDirectory (d : Disk) (path : FilePath) : Bool :=
  match d.resolve path with
  | .ok p => d.entry? p == some .directory
  | .error _ => false

/-- Whether a path leads to something. -/
def exists? (d : Disk) (path : FilePath) : Bool := (d.resolve path).isOk

/-- The place and the content of the file that a path leads to. -/
def find (d : Disk) (path : FilePath) : Except DiskFault (Place × ByteArray) := do
  let p ← d.resolve path
  match d.entry? p with
  | some (.file content) => return (p, content)
  | _ => throw .isDirectory

/-- The content of a file. -/
def read (d : Disk) (path : FilePath) : Except DiskFault ByteArray := (·.2) <$> d.find path

/-- The content of a file as text. -/
def readText (d : Disk) (path : FilePath) : Except DiskFault String := do
  match String.fromUTF8? (← d.read path) with
  | some s => return s
  | none => throw .notText

/-- Puts an entry at a place. -/
def put (d : Disk) (p : Place) (e : DiskEntry) : Disk := { d with entries := d.entries.insert p e }

/-- The directory that a path's last name is in, and that name; there is no name if the path ends
with the directory itself or the one above. -/
def locate (d : Disk) (path : FilePath) : Except DiskFault (Place × Option String) := do
  let start ← d.origin path
  match path.segments.reverse with
  | [] => return (start, none)
  | last :: front =>
    let p ← d.requireDirectory (← front.reverse.foldlM d.enter start)
    return (p, if last = "." || last = ".." then none else some last)

/-- Makes a directory. -/
def makeDirectory (d : Disk) (path : FilePath) : Except DiskFault Disk := do
  let (p, name) ← d.locate path
  match name with
  | none => throw .exists
  | some name =>
    let place := p ++ [← checkName name]
    if d.entry? place |>.isSome then throw .exists else return d.put place .directory

/-- The place of the file that a path names, whether it is there or not. -/
def filePlace (d : Disk) (path : FilePath) : Except DiskFault Place := do
  let (p, name) ← d.locate path
  match name with
  | none => throw .isDirectory
  | some name =>
    if path.hasFinalSlash then throw .isDirectory
    let place := p ++ [← checkName name]
    if d.entry? place = some .directory then throw .isDirectory else return place

/-- Makes an empty file, or empties the file that is there. -/
def create (d : Disk) (path : FilePath) : Except DiskFault (Place × Disk) := do
  let place ← d.filePlace path
  return (place, d.put place (.file ByteArray.empty))

/-- Writes a file over what was there. -/
def write (d : Disk) (path : FilePath) (content : ByteArray) : Except DiskFault Disk := do
  let (place, d) ← d.create path
  return d.put place (.file content)

/-- Makes the directory with these components, which are given backwards, and all directories
above it that are missing. -/
def makeDirectoriesUpTo (d : Disk) : List PathStep → Disk × Except DiskFault Unit
  | [] => (d, .ok ())
  | last :: front =>
    let path := FilePath.ofComponents (last :: front).reverse
    let settle (d : Disk) : Disk × Except DiskFault Unit :=
      match d.makeDirectory path with
      | .ok d => (d, .ok ())
      | .error f => (d, if d.isDirectory path then .ok () else .error f)
    match d.makeDirectory path with
    | .error .notFound =>
      match d.makeDirectoriesUpTo front with
      | (d, .ok ()) => settle d
      | (d, .error f) => (d, .error f)
    | _ => settle d

/-- Makes a directory and all directories above it that are missing.  What was made stays, also
where a later step fails. -/
def makeDirectories (d : Disk) (path : FilePath) : Disk × Except DiskFault Unit :=
  d.makeDirectoriesUpTo path.components.reverse

/-! ### Listing -/

/-- The entries below a place: each with its names from there. -/
def below (d : Disk) (p : Place) : List (Place × DiskEntry) :=
  d.entries.toList.filterMap fun e =>
    if p.isPrefixOf e.1 && p.length < e.1.length then some (e.1.drop p.length, e.2) else none

/-- Whether nothing stands below a place. -/
def isBare (d : Disk) (p : Place) : Bool := (d.below p).isEmpty

end Disk

end Groundwork
