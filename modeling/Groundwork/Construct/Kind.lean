/-
The kinds of constructs.

* `StoreKind` — the kinds of constructs that keep data;
* `Kind` — all kinds; `Kind.all` — the kinds in their order;
* `Kind.name`, `Kind.parse` — the name of a kind, in identities and documents;
* `Kind.capability` — the capability that an annotation asks for to get a construct of the kind.
-/
import Groundwork.Fault

set_option autoImplicit false

namespace Groundwork

/-- The kinds of constructs that keep data. -/
inductive StoreKind where
  /-- A relational database behind an object mapper. -/
  | orm
  /-- A key-value store. -/
  | kv
  /-- A single cache node. -/
  | redisNode
  /-- A file store. -/
  | fs
  /-- A secret. -/
  | secret
deriving DecidableEq, Inhabited

/-- The kinds of constructs. -/
inductive Kind where
  /-- A unit of code that runs. -/
  | executionUnit
  /-- A set of files that are served as they are. -/
  | staticUnit
  /-- A construct that keeps data. -/
  | store (kind : StoreKind)
  /-- An entry point that passes requests on. -/
  | gateway
deriving DecidableEq, Inhabited

namespace Kind

/-- All kinds, in their order. -/
def all : List Kind :=
  [.executionUnit, .staticUnit, .store .orm, .store .kv, .store .redisNode, .store .fs,
    .store .secret, .gateway]

/-- The name of a kind in identities and documents. -/
def name : Kind → String
  | .executionUnit => "execution_unit"
  | .staticUnit => "static_unit"
  | .store .orm => "orm"
  | .store .kv => "kv"
  | .store .redisNode => "redis_node"
  | .store .fs => "fs"
  | .store .secret => "secret"
  | .gateway => "expose"

/-- The capability that yields a construct of the kind. -/
def capability : Kind → String
  | .executionUnit => "execution_unit"
  | .staticUnit => "static_unit"
  | .store _ => "persist"
  | .gateway => "expose"

/-- The colour of a kind in drawings. -/
def color : Kind → String
  | .executionUnit => "#FF9800"
  | .staticUnit => "#795548"
  | .gateway => "#2196F3"
  | .store .orm => "#4CAF50"
  | .store .redisNode => "#4CAF50"
  | .store .kv => "#00BCD4"
  | .store .fs => "#00BCD4"
  | .store .secret => "#9C27B0"

/-- The kind with this name. -/
def ofName? (s : String) : Option Kind := all.find? fun k => k.name == s

/-- Reads the name of a kind. -/
def parse (s : String) : Except Fault Kind :=
  match ofName? s with
  | some k => .ok k
  | none => .error (.unknownKind s)

/-- The place of a kind in the order. -/
def index (k : Kind) : Nat := all.idxOf k

/-- The kinds before a kind. -/
def below (k : Kind) : List Kind := all.take k.index

theorem ofName?_name (k : Kind) : ofName? k.name = some k := by
  cases k with
  | store s => cases s <;> decide
  | _ => decide

end Kind

end Groundwork
