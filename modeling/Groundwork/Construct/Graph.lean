/-
Graphs of constructs.

A construct graph files each construct under the text of its identity; an edge says that its
source depends on its target.

* `ConstructGraph` — the graphs; `ConstructGraph.insert`, `ConstructGraph.depend?` — the changes;
* `ConstructGraph.ofKind`, `ConstructGraph.withCapability`, `ConstructGraph.executionUnits`,
  `ConstructGraph.gatewaysInto` — the selections;
* `ConstructGraph.drawing` — the graph as DOT text, coloured by kind.
-/
import Groundwork.Construct.Basic
import Groundwork.Digraph.Dot
import Groundwork.Digraph.Order
import Groundwork.Digraph.Walk

set_option autoImplicit false

namespace Groundwork

/-- A graph of constructs. -/
abbrev ConstructGraph := Digraph Construct Unit

namespace ConstructGraph

/-- Adds a construct, in place of one with the same identity. -/
def insert (g : ConstructGraph) (c : Construct) : ConstructGraph := g.insertVertex c.ident.text c

/-- Makes one construct depend on another; there is no result if one of them is missing. -/
def depend? (g : ConstructGraph) (source target : Ident) : Option ConstructGraph :=
  g.connect? source.text target.text {}

/-- Makes one construct depend on another where both are there. -/
def depend (g : ConstructGraph) (source target : Ident) : ConstructGraph :=
  g.connect source.text target.text {}

/-- The construct with this identity. -/
def find? (g : ConstructGraph) (i : Ident) : Option Construct := g.get? i.text

/-- The constructs on a path with the fewest edges. -/
def path (g : ConstructGraph) (source target : Ident) : Option (List Construct) :=
  (g.shortestPath source.text target.text).bind fun ids => ids.mapM g.get?

/-- The constructs of a kind. -/
def ofKind (g : ConstructGraph) (k : Kind) : List Construct := g.values.filter (·.kind == k)

/-- The constructs whose annotation asked for a capability. -/
def withCapability (g : ConstructGraph) (capability : String) : List Construct :=
  g.values.filter (·.origin.capability == capability)

/-- The units of code. -/
def executionUnits (g : ConstructGraph) : List ExecutionUnit :=
  g.values.filterMap Construct.executionUnit?

/-- The entry points that depend directly on the unit of code with this name. -/
def gatewaysInto (g : ConstructGraph) (name : String) : List Gateway :=
  (g.neighbors (Construct.identOf .executionUnit name).text .incoming).filterMap Construct.gateway?

/-- The graph as DOT text, coloured by kind. -/
def drawing (g : ConstructGraph) : String :=
  g.toDotWith "ConstructGraph" fun c => "fillcolor=\"" ++ c.kind.color ++ "\""

end ConstructGraph

end Groundwork
