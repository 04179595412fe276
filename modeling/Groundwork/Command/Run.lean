/-
Doing what the tool is asked to do.

A run reads the settings first, even where it has no use for them, and then does what it is asked
to do.  It is a function of the arguments, the environment and the disk.

* `Outcome` — what a run leaves behind;
* `Command.execute` — does what is asked for with given settings;
* `Command.run` — does what the arguments ask for.
-/
import Groundwork.Blueprint.Graph
import Groundwork.Command.Invocation
import Groundwork.Settings.Load

set_option autoImplicit false

namespace Groundwork

/-- What a run leaves behind. -/
structure Outcome where
  /-- The exit code. -/
  code : Nat := 0
  /-- What is printed. -/
  out : String := ""
  /-- What is printed about a failure. -/
  err : String := ""
  /-- The files and directories. -/
  disk : Disk

/-- The directory from which relative paths start. -/
def Disk.workingDirectory (d : Disk) : FilePath := .ofComponents (.root :: d.cwd.map .name)

namespace Outcome

/-- The end of a run that failed after it printed something. -/
def failed (d : Disk) (f : Fault) (out : String := "") : Outcome :=
  { code := 1, out, err := "Error: " ++ f.message ++ "\n", disk := d }

/-- The end of a run that prints the result of a step. -/
def ofResult (d : Disk) : Except Fault String → Outcome
  | .ok out => { out, disk := d }
  | .error f => failed d f

end Outcome

namespace Command

/-- How the report on a good blueprint starts. -/
def good (text : String) : String := "✅ " ++ text ++ "\n"

/-- The lines of texts. -/
def lines (l : List String) : String := String.join (l.map (· ++ "\n"))

/-- Reports what a blueprint declares; a cycle is found only after the counts are printed. -/
def report (file : FilePath) (g : ConstructGraph) (d : Disk) : Outcome :=
  let counts := good file.text ++
    lines ["  constructs:   " ++ toString g.order, "  dependencies: " ++ toString g.size]
  match g.topologicalOrder with
  | .error f => .failed d f counts
  | .ok _ =>
    let roots := g.roots.map fun c => "    - " ++ c.ident.text
    { out := counts ++ (if roots.isEmpty then "" else lines ("  roots:" :: roots)), disk := d }

/-- The files that show a graph: a drawing and a blueprint. -/
def drawings (g : ConstructGraph) (format : BlueprintFormat) : FileSet :=
  .ofList [
    .raw ⟨"constructs.dot"⟩ g.drawing.toUTF8,
    .raw ⟨"constructs." ++ format.name⟩ ((Blueprint.ofGraph g).render format).toUTF8]

/-- Writes the files that show a graph. -/
def drawInto (g : ConstructGraph) (dest : FilePath) (s : Settings) (processors : Nat) (d : Disk) :
    Outcome :=
  let files := drawings g s.format
  match writeFiles files.files dest (s.writeLimit processors) d with
  | (d, .ok ()) =>
    { out := good ("Exported " ++ toString files.size ++ " files to " ++ dest.text), disk := d }
  | (d, .error f) => .failed d f

/-- Does what is asked for with these settings, on a machine with so many processors. -/
def execute (s : Settings) (processors : Nat) (d : Disk) : Request → Outcome
  | .validate file =>
    match Blueprint.load d file with
    | .ok g => report file g d
    | .error f => .failed d f
  | .order file => .ofResult d ((Blueprint.load d file).bind fun g => g.topologicalOrder.map lines)
  | .draw file dest =>
    match Blueprint.load d file with
    | .ok g => drawInto g (dest.getD (s.outputDirectory d.workingDirectory)) s processors d
    | .error f => .failed d f
  | .showSettings true => { out := Json.render s.encode ++ "\n", disk := d }
  | .showSettings false => .ofResult d s.toToml
  | .initSettings file =>
    match ({} : Settings).save file d with
    | .ok d => { out := good ("Wrote default configuration to " ++ file.text), disk := d }
    | .error f => .failed d f

/-- How the tool is used. -/
def usage : String :=
  lines [
    "Inspect and export construct graphs",
    "",
    "  validate FILE              report what a construct graph holds",
    "  order FILE                 print construct ids in dependency order",
    "  dot FILE [-o DIR]          export a construct graph as DOT text",
    "  config show [--toml|--json]",
    "  config init [-o FILE]",
    "",
    "  -c, --config FILE          a configuration file layered over the defaults"]

/-- Does what the arguments ask for. -/
def run (args : List String) (env : Settings.Variables) (processors : Nat) (d : Disk) : Outcome :=
  match Invocation.parse args with
  | .error .help => { out := usage, disk := d }
  | .error .misuse => { code := 2, err := usage, disk := d }
  | .ok invocation =>
    match Settings.load env d invocation.config with
    | .ok s => execute s processors d invocation.request
    | .error f => .failed d f

end Command

end Groundwork
