/-
Constructs.

A construct is a part of an application that names no provider: code to run, files to serve, a
place to keep data, an entry point.  Each knows the annotation it came from, whose id is the name
of the construct.

* `Origin` — the annotation behind a construct;
* `ExecutionUnit`, `StaticUnit`, `Gateway` — the constructs with details of their own;
* `Construct` — all constructs; `Construct.ofKind` — the construct of a kind without details;
* `Construct.ident` — the identity of a construct;
* `Construct.encode`, `Construct.decode` — the details of a construct as data.
-/
import Groundwork.Construct.Kind
import Groundwork.Datum
import Groundwork.Ident

set_option autoImplicit false

namespace Groundwork

/-- The annotation that a construct came from. -/
structure Origin where
  /-- The name it gives to the construct. -/
  id : String
  /-- The capability it asks for. -/
  capability : String
deriving DecidableEq, Inhabited

/-- A unit of code that runs. -/
structure ExecutionUnit where
  /-- Where it came from. -/
  origin : Origin
  /-- The variables it is started with. -/
  environment : Table String String := ∅
  /-- The file that says how to build its image. -/
  dockerfile : Option String := none
deriving DecidableEq, Inhabited

/-- A set of files that are served as they are. -/
structure StaticUnit where
  /-- Where it came from. -/
  origin : Origin
  /-- The file that is served where none is named. -/
  index : Option String := none
deriving DecidableEq, Inhabited

/-- A route from an entry point to a unit. -/
structure Route where
  /-- The path of the requests. -/
  path : String
  /-- The verb of the requests. -/
  verb : String
  /-- The unit that serves them. -/
  unit : String
deriving DecidableEq, Inhabited

/-- An entry point that passes requests on. -/
structure Gateway where
  /-- Where it came from. -/
  origin : Origin
  /-- Where requests go. -/
  routes : List Route := []
deriving DecidableEq, Inhabited

/-- A part of an application. -/
inductive Construct where
  /-- A unit of code that runs. -/
  | executionUnit (unit : ExecutionUnit)
  /-- A set of files. -/
  | staticUnit (unit : StaticUnit)
  /-- An entry point. -/
  | gateway (gateway : Gateway)
  /-- A place to keep data. -/
  | store (kind : StoreKind) (origin : Origin)
deriving DecidableEq, Inhabited

namespace Construct

/-- The construct of a kind with this origin and no details. -/
def ofOrigin (origin : Origin) : Kind → Construct
  | .executionUnit => .executionUnit { origin }
  | .staticUnit => .staticUnit { origin }
  | .gateway => .gateway { origin }
  | .store k => .store k origin

/-- The construct of a kind with this name and no details. -/
def ofKind (k : Kind) (name : String) : Construct := ofOrigin ⟨name, k.capability⟩ k

/-- The kind of a construct. -/
def kind : Construct → Kind
  | .executionUnit _ => .executionUnit
  | .staticUnit _ => .staticUnit
  | .gateway _ => .gateway
  | .store k _ => .store k

/-- The annotation that a construct came from. -/
def origin : Construct → Origin
  | .executionUnit u => u.origin
  | .staticUnit u => u.origin
  | .gateway g => g.origin
  | .store _ o => o

/-- The name of a construct. -/
def name (c : Construct) : String := c.origin.id

/-- The identity of the construct of a kind with this name. -/
def identOf (k : Kind) (name : String) : Ident :=
  { provider := Ident.abstractProvider, kind := k.name, name }

/-- The identity of a construct. -/
def ident (c : Construct) : Ident := identOf c.kind c.name

/-- The unit that a construct is, if it runs code. -/
def executionUnit? : Construct → Option ExecutionUnit
  | .executionUnit u => some u
  | _ => none

/-- The entry point that a construct is, if it is one. -/
def gateway? : Construct → Option Gateway
  | .gateway g => some g
  | _ => none

/-- The set of files that a construct is, if it is one. -/
def staticUnit? : Construct → Option StaticUnit
  | .staticUnit u => some u
  | _ => none

@[simp] theorem kind_ofKind (k : Kind) (name : String) : (ofKind k name).kind = k := by
  cases k <;> rfl

@[simp] theorem name_ofKind (k : Kind) (name : String) : (ofKind k name).name = name := by
  cases k <;> rfl

end Construct

/-! ### Details as data -/

/-- An annotation as data. -/
def Origin.encode (o : Origin) : Datum :=
  .record [("id", .text o.id), ("capability", .text o.capability)]

/-- An annotation from data. -/
def Origin.decode (d : Datum) : Option Origin :=
  match d.members [["id"], ["capability"]] with
  | some [id, capability] => do
    return ⟨← Datum.required Datum.text? id, ← Datum.required Datum.text? capability⟩
  | _ => none

/-- A unit of code as data. -/
def ExecutionUnit.encode (u : ExecutionUnit) : Datum :=
  .record [("key", u.origin.encode), ("environment_variables", .ofTexts u.environment),
    ("dockerfile_path", .ofOption .text u.dockerfile)]

/-- A unit of code from data. -/
def ExecutionUnit.decode (d : Datum) : Option ExecutionUnit :=
  match d.members [["key"], ["environment_variables"], ["dockerfile_path"]] with
  | some [key, environment, dockerfile] => do
    return {
      origin := ← Datum.required Origin.decode key
      environment := ← Datum.withDefault ∅ (Datum.tableOf Datum.text?) environment
      dockerfile := ← Datum.withDefault none (Datum.optional Datum.text?) dockerfile }
  | _ => none

/-- A set of files as data. -/
def StaticUnit.encode (u : StaticUnit) : Datum :=
  .record [("key", u.origin.encode), ("index_document", .ofOption .text u.index)]

/-- A set of files from data. -/
def StaticUnit.decode (d : Datum) : Option StaticUnit :=
  match d.members [["key"], ["index_document"]] with
  | some [key, index] => do
    return {
      origin := ← Datum.required Origin.decode key
      index := ← Datum.withDefault none (Datum.optional Datum.text?) index }
  | _ => none

/-- A route as data. -/
def Route.encode (r : Route) : Datum :=
  .record [("path", .text r.path), ("verb", .text r.verb), ("exec_unit", .text r.unit)]

/-- A route from data. -/
def Route.decode (d : Datum) : Option Route :=
  match d.members [["path"], ["verb"], ["exec_unit"]] with
  | some [path, verb, unit] => do
    return ⟨← Datum.required Datum.text? path, ← Datum.required Datum.text? verb,
      ← Datum.required Datum.text? unit⟩
  | _ => none

/-- An entry point as data. -/
def Gateway.encode (g : Gateway) : Datum :=
  .record [("key", g.origin.encode), ("routes", .list (g.routes.map Route.encode))]

/-- An entry point from data. -/
def Gateway.decode (d : Datum) : Option Gateway :=
  match d.members [["key"], ["routes"]] with
  | some [key, routes] => do
    return {
      origin := ← Datum.required Origin.decode key
      routes := ← Datum.withDefault [] (Datum.listOf Route.decode) routes }
  | _ => none

/-- The details of a construct as data. -/
def Construct.encode : Construct → Datum
  | .executionUnit u => u.encode
  | .staticUnit u => u.encode
  | .gateway g => g.encode
  | .store _ o => .record [("key", o.encode)]

/-- A construct of a kind from its details. -/
def Construct.decode (k : Kind) (d : Datum) : Option Construct :=
  match k with
  | .executionUnit => (ExecutionUnit.decode d).map .executionUnit
  | .staticUnit => (StaticUnit.decode d).map .staticUnit
  | .gateway => (Gateway.decode d).map .gateway
  | .store s =>
    match d with
    | .record l => ((l.find? (·.1 == "key")).bind fun m => Origin.decode m.2).map (.store s)
    | _ => none

end Groundwork
