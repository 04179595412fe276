/-
Blueprints: construct graphs as documents.

A blueprint declares constructs by their names and kinds, and edges between the names.

* `EdgeSpec`, `Blueprint` — declared edges and whole blueprints;
* `BlueprintFormat` — the formats of their texts; `BlueprintFormat.ofPath` — the format of a file;
* `Blueprint.decode`, `Blueprint.ofYaml`, `Blueprint.parse` — reading;
* `Blueprint.encode`, `Blueprint.render` — writing.
-/
import Groundwork.Fault
import Groundwork.Json.Printer
import Groundwork.Json.Reader
import Groundwork.Storage.Path
import Groundwork.Yaml.Decode
import Groundwork.Yaml.Printer

set_option autoImplicit false

namespace Groundwork

/-- A declared edge. -/
structure EdgeSpec where
  /-- The name of the construct that depends on the other. -/
  source : String
  /-- The name of the construct that the other depends on. -/
  target : String
deriving DecidableEq, Inhabited

/-- A construct graph as a document declares it. -/
structure Blueprint where
  /-- The name of the kind of each construct, by the name of the construct. -/
  kinds : Table String String := ∅
  /-- The declared edges. -/
  edges : List EdgeSpec := []
deriving DecidableEq, Inhabited

/-! ### Formats -/

/-- The formats of the texts of blueprints. -/
inductive BlueprintFormat where
  /-- YAML. -/
  | yaml
  /-- JSON. -/
  | json
deriving DecidableEq, Inhabited

namespace BlueprintFormat

/-- The name of a format, which is also the extension of its files. -/
def name : BlueprintFormat → String
  | .yaml => "yaml"
  | .json => "json"

/-- The format with this name. -/
def ofName? : String → Option BlueprintFormat
  | "yaml" => some .yaml
  | "json" => some .json
  | _ => none

/-- The format of a file: JSON by its extension, else YAML. -/
def ofPath (p : FilePath) : BlueprintFormat := if p.extension? = some "json" then .json else .yaml

end BlueprintFormat

/-! ### Reading -/

namespace EdgeSpec

/-- An edge from data. -/
def decode (d : Datum) : Option EdgeSpec :=
  match d.members [["source"], ["destination"]] with
  | some [source, target] => do
    return ⟨← Datum.required Datum.text? source, ← Datum.required Datum.text? target⟩
  | _ => none

/-- An edge from a YAML node. -/
def ofYaml (d : Yaml.Document) (n : Yaml.Node) : Option EdgeSpec :=
  match d.members [["source"], ["destination"]] n with
  | some [some source, some target] => do return ⟨← d.text? source, ← d.text? target⟩
  | _ => none

/-- An edge as data. -/
def encode (e : EdgeSpec) : Datum :=
  .record [("source", .text e.source), ("destination", .text e.target)]

end EdgeSpec

namespace Blueprint

/-- The names of the members of a blueprint. -/
def memberNames : List (List String) := [["resources", "constructs"], ["edges"]]

/-- The kind of a construct from data. -/
def decodeKind (d : Datum) : Option String :=
  match d.members [["kind"]] with
  | some [kind] => Datum.required Datum.text? kind
  | _ => none

/-- A blueprint from data. -/
def decode (d : Datum) : Option Blueprint :=
  match d.members memberNames with
  | some [kinds, edges] => do
    return {
      kinds := ← Datum.withDefault ∅ (Datum.tableOf decodeKind) kinds
      edges := ← Datum.withDefault [] (Datum.listOf EdgeSpec.decode) edges }
  | _ => none

/-- The kind of a construct from a YAML node. -/
def kindOfYaml (d : Yaml.Document) (n : Yaml.Node) : Option String :=
  match d.members [["kind"]] n with
  | some [some kind] => d.text? kind
  | _ => none

/-- A blueprint from a YAML document. -/
def ofYaml (d : Yaml.Document) : Option Blueprint :=
  match d.members memberNames d.root with
  | some [kinds, edges] => do
    return {
      kinds := ← kinds.elim (some ∅) (d.tableOf (kindOfYaml d))
      edges := ← edges.elim (some []) (d.listOf (EdgeSpec.ofYaml d)) }
  | _ => none

/-- Reads the text of a blueprint.  A YAML text without a document is the blueprint that declares
nothing, and one with several documents is none. -/
def parse (text : String) : BlueprintFormat → Except Fault Blueprint
  | .yaml =>
    match Yaml.Stream.parse text with
    | some [] => .ok {}
    | some [d] =>
      match ofYaml d with
      | some b => .ok b
      | none => .error (.yaml "not a blueprint")
    | some _ => .error (.yaml "more than one document")
    | none => .error (.yaml "not a document")
  | .json =>
    match (Json.read text).bind decode with
    | some b => .ok b
    | none => .error (.json "not a blueprint")

/-! ### Writing -/

/-- A blueprint as data. -/
def encode (b : Blueprint) : Datum :=
  .record [
    ("resources", .ofTable (fun kind => .record [("kind", .text kind)]) b.kinds),
    ("edges", .list (b.edges.map EdgeSpec.encode))]

/-- The text of a blueprint. -/
def render (b : Blueprint) : BlueprintFormat → String
  | .yaml => Yaml.render b.encode
  | .json => Json.render b.encode

end Blueprint

end Groundwork
