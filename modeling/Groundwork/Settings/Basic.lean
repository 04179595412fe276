/-
The settings of the tool.

Settings come in three sections: where and how files are written, how edges are expanded, and what
is logged.  Every setting has a value that stands in for it.

* `Settings` — the settings, with their default values;
* `Settings.Reading` — what may stand for a setting; `Settings.strict` — only what is meant;
* `Settings.read` — settings from data; `Settings.encode` — settings as data;
* `Settings.toToml` — the text of settings;
* `Settings.outputDirectory`, `Settings.writeLimit` — what they mean on a given machine.
-/
import Groundwork.Blueprint.Basic
import Groundwork.Output.Pool
import Groundwork.Toml.Printer

set_option autoImplicit false

namespace Groundwork

/-- The settings of the tool. -/
structure Settings where
  /-- Where files are written. -/
  outDir : FilePath := ⟨"compiled"⟩
  /-- How many files may be written at once; zero stands for the number of processors. -/
  writers : Nat := defaultWriteLimit
  /-- The format of blueprints that are written. -/
  format : BlueprintFormat := .yaml
  /-- The application that edges without data belong to. -/
  app : String := "app"
  /-- What is logged. -/
  filter : String := "info"
deriving Inhabited

namespace Settings

/-- Settings are the same if they are equal and their directories have the same components. -/
instance : BEq Settings where
  beq s t := s.outDir.components == t.outDir.components && s.writers == t.writers &&
    s.format == t.format && s.app == t.app && s.filter == t.filter

/-! ### Meaning -/

/-- The directory that files are written to. -/
def outputDirectory (s : Settings) (cwd : FilePath) : FilePath := cwd.join s.outDir

/-- How many files may be written at once on a machine with so many processors. -/
def writeLimit (s : Settings) (processors : Nat) : Nat :=
  if s.writers = 0 then processors else s.writers

/-! ### Reading -/

/-- What may stand for a setting. -/
structure Reading where
  /-- The members of a section in the order of their names. -/
  members : List String → Datum → Option (List (Option Datum))
  /-- A text. -/
  text : Datum → Option String
  /-- A number. -/
  count : Datum → Option Nat
  /-- A format. -/
  format : Datum → Option BlueprintFormat

/-- Numbers of 64 bits. -/
def isCount (n : Nat) : Bool := Numeral.isUnsigned 64 n

/-- Reads a number that is written as one. -/
def strictCount : Datum → Option Nat
  | .int (.ofNat n) => if isCount n then some n else none
  | _ => none

/-- Only what is meant may stand for a setting. -/
def strict : Reading where
  members := fun names => Datum.members (names.map ([·]))
  text := Datum.text?
  count := strictCount
  format := Datum.enumOf BlueprintFormat.ofName?

/-- The members of a section, all of them absent where the section is. -/
def Reading.sectionMembers (r : Reading) (names : List String) :
    Option Datum → Option (List (Option Datum))
  | none => some (names.map fun _ => none)
  | some d => r.members names d

/-- Settings from data. -/
def read (r : Reading) (d : Datum) : Option Settings := do
  let [output, expansion, logging] ← r.members ["output", "expansion", "logging"] d | none
  let [outDir, writers, format] ←
    r.sectionMembers ["out_dir", "max_concurrent_writes", "format"] output | none
  let [app] ← r.sectionMembers ["app_name"] expansion | none
  let [filter] ← r.sectionMembers ["filter"] logging | none
  let usual : Settings := {}
  return {
    outDir := ← Datum.withDefault usual.outDir (fun d => (r.text d).map FilePath.mk) outDir
    writers := ← Datum.withDefault usual.writers r.count writers
    format := ← Datum.withDefault usual.format r.format format
    app := ← Datum.withDefault usual.app r.text app
    filter := ← Datum.withDefault usual.filter r.text filter }

/-! ### Writing -/

/-- The sections of settings, with their entries. -/
def sections (s : Settings) : List (String × List (String × Datum)) :=
  [("output", [("out_dir", .text s.outDir.text), ("max_concurrent_writes", .int s.writers),
      ("format", .text s.format.name)]),
    ("expansion", [("app_name", .text s.app)]),
    ("logging", [("filter", .text s.filter)])]

/-- Settings as data. -/
def encode (s : Settings) : Datum := .record (s.sections.map fun e => (e.1, .record e.2))

/-- The text of settings. -/
def toToml (s : Settings) : Except Fault String :=
  match Toml.render? s.sections with
  | some text => .ok text
  | none => .error (.toml "a number has more than 64 bits")

end Settings

end Groundwork
