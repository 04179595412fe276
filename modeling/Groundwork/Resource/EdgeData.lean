/-
What an abstract edge asks for.

An edge between resources may carry data for the behaviours that realise it, and a constraint on
the chain of types that may stand for it.

* `EdgeConstraint`, `EdgeConstraint.permits` — the constraint;
* `EnvironmentVariable`, `EdgeData` — the data;
* `Payload` — what an edge of a resource graph carries;
* `EdgeData.ofProperties` — the data of an edge.
-/
import Groundwork.Digraph.Basic
import Groundwork.Resource.Basic

set_option autoImplicit false

namespace Groundwork

/-- A type tag from data. -/
def TypeTag.decode (d : Datum) : Option TypeTag := d.text?.map TypeTag.mk

/-- A type tag as data. -/
def TypeTag.encode (t : TypeTag) : Datum := .text t.text

/-- Which chains of types may stand for an edge. -/
structure EdgeConstraint where
  /-- All these types have to be on the chain. -/
  required : List TypeTag := []
  /-- None of these types may be on the chain. -/
  excluded : List TypeTag := []
deriving DecidableEq, Inhabited

namespace EdgeConstraint

/-- Whether the constraint permits everything. -/
def isEmpty (c : EdgeConstraint) : Bool := c.required.isEmpty && c.excluded.isEmpty

/-- Whether a chain of types may stand for the edge. -/
def permits (c : EdgeConstraint) (path : List TypeTag) : Bool :=
  c.required.all path.contains && !c.excluded.any path.contains

/-- A constraint as data. -/
def encode (c : EdgeConstraint) : Datum :=
  .record [
    ("node_must_exist", .list (c.required.map TypeTag.encode)),
    ("node_must_not_exist", .list (c.excluded.map TypeTag.encode))]

/-- A constraint from data. -/
def decode (d : Datum) : Option EdgeConstraint :=
  match d.members [["node_must_exist"], ["node_must_not_exist"]] with
  | some [required, excluded] => do
    return {
      required := ← Datum.withDefault [] (Datum.listOf TypeTag.decode) required
      excluded := ← Datum.withDefault [] (Datum.listOf TypeTag.decode) excluded }
  | _ => none

end EdgeConstraint

/-- A variable that a construct needs in its environment. -/
structure EnvironmentVariable where
  /-- The name of the variable. -/
  name : String
  /-- The construct that the value comes from. -/
  construct : Ident
  /-- Which of its values is meant. -/
  value : String
deriving DecidableEq, Inhabited

namespace EnvironmentVariable

/-- A variable as data. -/
def encode (v : EnvironmentVariable) : Datum :=
  .record [("name", .text v.name), ("construct", .text v.construct.text), ("value", .text v.value)]

/-- A variable from data. -/
def decode (d : Datum) : Option EnvironmentVariable :=
  match d.members [["name"], ["construct"], ["value"]] with
  | some [name, construct, value] => do
    return ⟨← Datum.required Datum.text? name, ← Datum.required Ident.decode construct,
      ← Datum.required Datum.text? value⟩
  | _ => none

end EnvironmentVariable

/-- What an abstract edge hands to the behaviours that realise it. -/
structure EdgeData where
  /-- The name of the application. -/
  app : String := ""
  /-- The variables that constructs need. -/
  environment : List EnvironmentVariable := []
  /-- Which chains of types may stand for the edge. -/
  constraint : EdgeConstraint := {}
  /-- The resource that the abstract edge leaves. -/
  source : Option Handle := none
  /-- The resource that the abstract edge enters. -/
  target : Option Handle := none
deriving DecidableEq, Inhabited

/-- What an edge of a resource graph carries. -/
inductive Payload where
  /-- Data for behaviours. -/
  | data (data : EdgeData)
  /-- Something else. -/
  | foreign
deriving DecidableEq, Inhabited

/-- The data of an edge from `source` to `target`.  Without a payload the defaults count, and a
payload of another shape is refused. -/
def EdgeData.ofProperties (p : Properties Payload) (defaults : EdgeData) (source target : String) :
    Except Fault EdgeData :=
  match p.data with
  | none => .ok defaults
  | some (.data d) => .ok d
  | some .foreign => .error (.edgeDataShape source target)

end Groundwork
