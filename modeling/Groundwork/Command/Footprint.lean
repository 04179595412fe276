/-
The paths that a run may look at.

A run is a function of the disk, of which it looks only at a few paths.  What it does not look at
need not be known.

* `Settings.candidates` — the paths where files of settings may be;
* `Command.footprint` — the paths that a run may look at;
* `Disk.changes` — what a run has changed.
-/
import Groundwork.Command.Run

set_option autoImplicit false

namespace Groundwork

namespace Settings

/-- The paths where a file that is asked for may be. -/
def variants (p : FilePath) : List FilePath :=
  p :: SettingsFormat.extensions.map fun e => withExtension p e.1

/-- The paths where files of settings may be. -/
def candidates (env : Variables) (asked : Option FilePath) : List FilePath :=
  let user := (userDirectory? env).map (·.join ⟨"infragraph/infragraph.toml"⟩)
  (localFiles ++ user.toList ++ asked.toList).flatMap variants

end Settings

namespace Command

/-- The paths that a run may look at.  Where a drawing goes depends on the settings, for which the
disk has to be known. -/
def footprint (args : List String) (env : Settings.Variables) (d : Disk) : List FilePath :=
  match Invocation.parse args with
  | .error _ => []
  | .ok invocation =>
    Settings.candidates env invocation.config ++
      match invocation.request with
      | .validate file | .order file | .initSettings file => [file]
      | .showSettings _ => []
      | .draw file dest =>
        let s := (Settings.load env d invocation.config).toOption.getD {}
        let dest := dest.getD (s.outputDirectory d.workingDirectory)
        file :: (drawings {} s.format).files.map (dest.join ·.path)

end Command

/-- The entries of a disk that another one does not have, directories before what is in them. -/
def Disk.changes (d old : Disk) : List (Place × DiskEntry) :=
  d.entries.toList.filter fun e => old.entry? e.1 != some e.2

end Groundwork
