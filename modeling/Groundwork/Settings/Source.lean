/-
Where settings come from.

A file of settings may be written in one of several formats, which its extension names; the
extension may also be left out where the file is asked for.  A variable of the environment with the
right start stands for one setting.

* `SettingsFormat` — the formats; `SettingsFormat.read` — the data of a text;
* `Settings.locate` — the file that a path asks for, with its format;
* `Settings.ofFile` — the data of a file;
* `Settings.ofVariables` — the data of the environment.
-/
import Groundwork.Fault
import Groundwork.Settings.Overlay
import Groundwork.Storage.Disk
import Groundwork.Text.Lossy
import Groundwork.Toml.Reader
import Groundwork.Json.Reader
import Groundwork.Numeral
import Groundwork.Yaml.Node

set_option autoImplicit false

namespace Groundwork

/-- The formats of files of settings. -/
inductive SettingsFormat where
  /-- TOML. -/
  | toml
  /-- JSON. -/
  | json
  /-- YAML. -/
  | yaml
deriving DecidableEq, Inhabited

namespace SettingsFormat

/-- The extensions of files of settings, in the order in which they are tried. -/
def extensions : List (String × SettingsFormat) :=
  [("toml", .toml), ("json", .json), ("yaml", .yaml), ("yml", .yaml)]

/-- Whole numbers of 64 bits. -/
def isWord (n : Int) : Bool := Numeral.isSigned 64 n

/-- Members of which each name is kept once, with the last value that it was given. -/
def lastOfEach (l : List (String × Datum)) : List (String × Datum) :=
  l.foldl (fun l m => Datum.assign m.1 m.2 l) []

/-! ### JSON -/

/-- The number of lists and records that may hold one another. -/
def nestingLimit : Nat := 127

/-- JSON data as settings see it, if it is nested less than `n` deep: whole numbers of more than 64
bits lose their last digits, and a number that no number is near to is refused. -/
def settle : Nat → Datum → Option Datum
  | _, .null => some .null
  | _, .bool b => some (.bool b)
  | _, .text s => some (.text s)
  | _, .int n => some (if isWord n then .int n else .real (.ofInt n))
  | _, .real (.infinite _) => none
  | _, .real x => some (.real x)
  | n + 1, .list l => (l.mapM (settle n)).map .list
  | n + 1, .record l =>
    (l.mapM fun m => (settle n m.2).map (m.1, ·)).map fun l => .record (lastOfEach l)
  | _, _ => none

/-! ### YAML -/

/-- The whole number that a plain scalar stands for. -/
def yamlInt? (cs : List Char) : Option Int :=
  let based (base : Nat) (cs : List Char) : Option Int :=
    (Numeral.nat? base (Numeral.sign cs).2).map fun n => if (Numeral.sign cs).1 then -(n : Int) else n
  let n := match cs with
    | '0' :: 'x' :: ds => based 16 ds
    | '0' :: 'o' :: ds => based 8 ds
    | ds => Numeral.int? ds
  n.filter isWord

/-- The words for numbers that settings have no use for. -/
def yamlWords : List String :=
  [".inf", ".Inf", ".INF", "+.inf", "+.Inf", "+.INF", "-.inf", "-.Inf", "-.INF", ".nan", ".NAN"]

/-- What a plain scalar stands for. -/
def yamlScalar (s : String) : Option Datum :=
  if ["", "~", "null"].contains s then some .null
  else if s = "true" then some (.bool true)
  else if s = "false" then some (.bool false)
  else if yamlWords.contains s then none
  else
    match yamlInt? s.toList with
    | some n => some (.int n)
    | none =>
      match Numeral.real? s.toList with
      | some x => some (.real x)
      | none => some (.text s)

/-- The name that a key stands for: a text or a whole number. -/
def yamlKey : Datum → Option String
  | .text s => some s
  | .int n => some (toString n)
  | _ => none

mutual

/-- The data of a node, where `known` holds the data of nodes with anchors. -/
def ofNode (known : List (Nat × Datum)) : Yaml.Node → Option Datum
  | .scalar s plain => if plain then yamlScalar s else some (.text s)
  | .sequence l => (ofNodes known l).map .list
  | .mapping l => (ofEntries known l).map fun l => .record (lastOfEach l)
  | .alias n => some ((known.lookup n).getD .null)

/-- The data of the items of a sequence. -/
def ofNodes (known : List (Nat × Datum)) : List Yaml.Node → Option (List Datum)
  | [] => some []
  | n :: rest => do return (← ofNode known n) :: (← ofNodes known rest)

/-- The data of the entries of a mapping. -/
def ofEntries (known : List (Nat × Datum)) : List (Yaml.Node × Yaml.Node) →
    Option (List (String × Datum))
  | [] => some []
  | (k, n) :: rest => do
    return (← yamlKey (← ofNode known k), ← ofNode known n) :: (← ofEntries known rest)

end

/-- The data of a document.  Nodes with anchors come in the order in which they end, so that an
alias stands for a node before it, and for nothing inside of its own node. -/
def ofDocument (d : Yaml.Document) : Option Datum := do
  let known ← d.anchored.foldlM (fun known e => do return (e.1, ← ofNode known e.2) :: known) []
  ofNode known d.root

/-! ### Texts -/

/-- The data of a text, which has to be a record. -/
def read (f : SettingsFormat) (text : String) : Option Datum := do
  let d ← match f with
    | .toml => Toml.read text
    | .json => (Json.read text).bind (settle nestingLimit)
    | .yaml =>
      match Yaml.Stream.parse text with
      | some [] => some (.record [])
      | some [d] => ofDocument d
      | _ => none
  match d with
  | .record l => some (.record l)
  | _ => none

end SettingsFormat

namespace Settings

/-! ### Files -/

/-- Whether a path leads to a file. -/
def isFile (d : Disk) (p : FilePath) : Bool := (d.find p).isOk

/-- A path with an extension put after its name. -/
def withExtension (p : FilePath) (extension : String) : FilePath :=
  ⟨(FilePath.ofComponents p.components).text ++ "." ++ extension⟩

/-- The file that a path asks for, with its format: the one at the path itself, which has to have
one of the extensions, or else the first one whose extension is left out in the path. -/
def locate (d : Disk) (p : FilePath) : Option (FilePath × SettingsFormat) :=
  if isFile d p then do
    return (p, ← SettingsFormat.extensions.lookup (← p.extension?))
  else do
    let _ ← p.fileName?
    SettingsFormat.extensions.findSome? fun (extension, format) =>
      let p := withExtension p extension
      if isFile d p then some (p, format) else none

/-- The text of a file.  A mark of the order of its bytes does not count. -/
def fileText (content : ByteArray) : String :=
  Text.ofBytes (if content.data.toList.take 3 = [0xEF, 0xBB, 0xBF] then content.extract 3 content.size
    else content)

/-- The data of the file that a path asks for; there is none where there is no such file. -/
def ofFile (d : Disk) (p : FilePath) : Except Fault (Option Datum) :=
  match locate d p with
  | none => .ok none
  | some (file, format) =>
    match (d.read file).toOption.bind fun content => format.read (fileText content) with
    | some data => .ok (some data)
    | none => .error (.config ("cannot read " ++ file.text))

/-! ### Variables -/

/-- How the names of variables that stand for settings start. -/
def variableMark : List Char := "infragraph__".toList

/-- What the text of a variable stands for. -/
def ofVariable (s : String) : Datum :=
  match s.toLower with
  | "true" => .bool true
  | "false" => .bool false
  | _ =>
    match (Numeral.int? s.toList).filter SettingsFormat.isWord with
    | some n => .int n
    | none =>
      match Numeral.real? s.toList with
      | some x => .real x
      | none => .text s

/-- The name of a variable with a dot in the place of each pair of underscores. -/
def dotted : List Char → List Char
  | '_' :: '_' :: rest => '.' :: dotted rest
  | c :: rest => c :: dotted rest
  | [] => []

/-- The name that a variable gives to its setting: what follows the mark, with its parts joined by
dots. -/
def variableName? (name : String) : Option String :=
  let cs := name.toLower.toList
  if variableMark.isPrefixOf cs then some (String.ofList (dotted (cs.drop variableMark.length)))
  else none

/-- The data of the environment. -/
def ofVariables (l : List (String × String)) : Datum :=
  .record (l.filterMap fun v => (variableName? v.1).map (·, ofVariable v.2))

end Settings

end Groundwork
