/-
The command line.

The program takes a picture of the part of the disk that its run may look at, does what its
arguments ask for on that picture, and carries the changes out.
-/
import Groundwork.Command.Footprint

set_option autoImplicit false

namespace Groundwork.Program

/-- The text of a place. -/
def placeText (p : Place) : String := "/" ++ "/".intercalate p

/-- What stands at a place.  Reading a directory fails in a way of its own. -/
def look (p : Place) : IO (Option DiskEntry) := do
  try
    return some (.file (← IO.FS.readBinFile (placeText p)))
  catch
    | .inappropriateType _ 21 _ => return some .directory
    | _ => return none

/-- Adds all that stands on the way of a path to a picture of the disk. -/
def picture (d : Disk) (path : FilePath) : IO Disk := do
  let mut d := d
  let mut place := if path.isAbsolute then [] else d.cwd
  for step in path.components do
    match step with
    | .root | .here => pure ()
    | .up => place := place.dropLast
    | .name s =>
      place := place ++ [s]
      if let some e ← look place then d := d.put place e
  return d

/-- The variables of the environment. -/
def environment : IO Settings.Variables := do
  let content := Text.ofBytes (← IO.FS.readBinFile "/proc/self/environ")
  return .ofList ((content.splitOn "\x00").filterMap fun line =>
    match line.splitOn "=" with
    | name :: value :: more => some (name, "=".intercalate (value :: more))
    | _ => none)

/-- Carries a change out. -/
def carryOut (p : Place) : DiskEntry → IO Unit
  | .directory => IO.FS.createDir (placeText p)
  | .file content => IO.FS.writeBinFile (placeText p) content

end Groundwork.Program

open Groundwork in
/-- Runs the tool. -/
def main (args : List String) : IO UInt32 := do
  let env ← Program.environment
  let cwd : FilePath := ⟨toString (← IO.currentDir)⟩
  let mut d ← Program.picture { cwd := cwd.segments } cwd
  for p in Command.footprint args env d do d ← Program.picture d p
  for p in Command.footprint args env d do d ← Program.picture d p
  let outcome := Command.run args env 1 d
  for (p, e) in outcome.disk.changes d do Program.carryOut p e
  IO.print outcome.out
  IO.eprint outcome.err
  return outcome.code.toUInt32
