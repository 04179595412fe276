/-
Reading values out of YAML nodes.

A scalar reads as the text it is written with, whatever it might stand for.  Where a collection is
wanted, nothing at all reads as an empty one.  Aliases stand for the nodes they name.

* `Document.text?`, `Document.items?`, `Document.entries?` — a scalar, a sequence, a mapping;
* `Document.listOf`, `Document.tableOf` — the same with their contents decoded;
* `Document.members` — the members of a record by their names.
-/
import Groundwork.Table
import Groundwork.Yaml.Node

set_option autoImplicit false

namespace Groundwork.Yaml.Document

/-- The text of a scalar. -/
def text? (d : Document) (n : Node) : Option String :=
  match d.resolve n with
  | .scalar s _ => some s
  | _ => none

/-- The items of a sequence. -/
def items? (d : Document) (n : Node) : Option (List Node) :=
  match d.resolve n with
  | .sequence l => some l
  | .scalar "" true => some []
  | _ => none

/-- The entries of a mapping. -/
def entries? (d : Document) (n : Node) : Option (List (Node × Node)) :=
  match d.resolve n with
  | .mapping l => some l
  | .scalar "" true => some []
  | _ => none

/-- A sequence, each of its items decoded. -/
def listOf {α : Type} (d : Document) (decode : Node → Option α) (n : Node) : Option (List α) := do
  (← d.items? n).mapM decode

/-- A mapping as a table, each of its values decoded; of a repeated key the last value counts. -/
def tableOf {α : Type} (d : Document) (decode : Node → Option α) (n : Node) :
    Option (Table String α) := do
  let entries ← (← d.entries? n).mapM fun e => do return (← d.text? e.1, ← decode e.2)
  return .ofList entries

/-- The members of a mapping in the order of `names`, each with the names it goes by.  All keys
have to be scalars, and no member may be given twice. -/
def members (d : Document) (names : List (List String)) (n : Node) :
    Option (List (Option Node)) := do
  let entries ← (← d.entries? n).mapM fun e => do return (← d.text? e.1, e.2)
  names.mapM fun ns =>
    match entries.filter fun e => ns.contains e.1 with
    | [] => some none
    | [e] => some (some e.2)
    | _ => none

end Groundwork.Yaml.Document
