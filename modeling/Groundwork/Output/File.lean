/-
Files to be written.

An output file says where it goes below a destination, what it consists of, and whether it may
replace a file that is there already.

* `OutputFile` — such files; `OutputFile.raw`, `OutputFile.once`, `OutputFile.keep`,
  `OutputFile.refresh`, `OutputFile.broken` — the usual ones;
* `OutputFile.writeTo` — writes one file below a destination;
* `FileSet` — files by their paths.
-/
import Groundwork.Fault
import Groundwork.Storage.Disk

set_option autoImplicit false

namespace Groundwork

/-- A file to be written. -/
structure OutputFile where
  /-- Where it goes, from the destination. -/
  path : FilePath
  /-- What its renderer writes. -/
  body : ByteArray
  /-- Why its renderer fails after the body, if it does. -/
  failure : Option String := none
  /-- Whether it may replace a file with the given content. -/
  mayReplace : ByteArray → Bool := fun _ => true

namespace OutputFile

/-- A file that replaces any other. -/
def raw (path : FilePath) (body : ByteArray) : OutputFile := { path, body }

/-- A file that replaces only a file without content. -/
def once (path : FilePath) (body : ByteArray) : OutputFile :=
  { path, body, mayReplace := fun old => old.isEmpty }

/-- A file that replaces no other. -/
def keep (path : FilePath) (body : ByteArray) : OutputFile :=
  { path, body, mayReplace := fun _ => false }

/-- A file that replaces only text. -/
def refresh (path : FilePath) (body : ByteArray) : OutputFile :=
  { path, body, mayReplace := fun old => (String.fromUTF8? old).isSome }

/-- A file whose renderer fails after its body. -/
def broken (path : FilePath) (body : ByteArray) : OutputFile :=
  { path, body, failure := some "renderer crashed" }

/-- The failure to write a file. -/
def fault (target : FilePath) (reason : String) : Fault := .output (target.text ++ ": " ++ reason)

/-- Fills the file at a place. -/
def fill (f : OutputFile) (target : FilePath) (d : Disk) (place : Place) :
    Disk × Except Fault Unit :=
  (d.put place (.file f.body),
    match f.failure with
    | none => .ok ()
    | some reason => .error (fault target reason))

/-- Writes a file below a destination.  Missing directories are made first, and a file that may
not be replaced is left as it is. -/
def writeTo (f : OutputFile) (dest : FilePath) (d : Disk) : Disk × Except Fault Unit :=
  let target := dest.join f.path
  let refused (d : Disk) (e : DiskFault) : Disk × Except Fault Unit :=
    (d, .error (fault target e.message))
  let (d, made) := match target.parent? with
    | some parent => d.makeDirectories parent
    | none => (d, .ok ())
  match made with
  | .error e => refused d e
  | .ok () =>
    match d.find target with
    | .ok (place, old) => if f.mayReplace old then f.fill target d place else (d, .ok ())
    | .error .notFound =>
      match d.create target with
      | .ok (place, d) => f.fill target d place
      | .error e => refused d e
    | .error e => refused d e

/-- Every failure names the file that it is about. -/
theorem eq_fault_of_writeTo {f : OutputFile} {dest : FilePath} {d : Disk} {e : Fault}
    (h : (f.writeTo dest d).2 = .error e) : ∃ reason, e = fault (dest.join f.path) reason := by
  have hfill (d : Disk) (place : Place)
      (hf : (f.fill (dest.join f.path) d place).2 = .error e) :
      ∃ reason, e = fault (dest.join f.path) reason := by
    unfold fill at hf
    split at hf
    · cases hf
    · cases hf
      exact ⟨_, rfl⟩
  have hrefused (message : String)
      (hf : (Except.error (fault (dest.join f.path) message) : Except Fault Unit) = .error e) :
      ∃ reason, e = fault (dest.join f.path) reason := by
    cases hf
    exact ⟨message, rfl⟩
  unfold writeTo at h
  dsimp only at h
  split at h
  · exact hrefused _ h
  · split at h
    · split at h
      · exact hfill _ _ h
      · cases h
    · split at h
      · exact hfill _ _ h
      · exact hrefused _ h
    · exact hrefused _ h

/-- A file fails for a single reason. -/
theorem parts_of_writeTo {f : OutputFile} {dest : FilePath} {d : Disk} {e : Fault}
    (h : (f.writeTo dest d).2 = .error e) : e.parts = [e] := by
  obtain ⟨reason, rfl⟩ := eq_fault_of_writeTo h
  rfl

end OutputFile

/-! ### Sets of files -/

/-- Files by their paths. -/
structure FileSet where
  /-- The files, in the order of their paths. -/
  table : Table FilePath OutputFile := ∅

namespace FileSet

/-- Adds a file, in place of one with the same path. -/
def add (s : FileSet) (f : OutputFile) : FileSet := ⟨s.table.insert f.path f⟩

/-- The set of the given files. -/
def ofList (l : List OutputFile) : FileSet := l.foldl add {}

/-- The file with this path. -/
def get? (s : FileSet) (p : FilePath) : Option OutputFile := s.table.get? p

/-- The files in the order of their paths. -/
def files (s : FileSet) : List OutputFile := s.table.values

/-- The number of files. -/
def size (s : FileSet) : Nat := s.table.size

end FileSet

end Groundwork
