/-
Graphs as DOT text.

* `Dot.quote` — a text in quotes, as DOT reads it;
* `Digraph.toDot`, `Digraph.toDotWith` — a graph, its vertices in the order of their ids and its
  edges in the order of their slots.
-/
import Groundwork.Digraph.Basic
import Groundwork.Text.Quoted

set_option autoImplicit false

namespace Groundwork

/-- A text in quotes; quotes and backslashes in it are written with a backslash before them. -/
def Dot.quote (s : String) : String :=
  "\"" ++ String.ofList (s.toList.flatMap fun c =>
    if c = '\\' || c = '"' then ['\\', c] else [c]) ++ "\""

namespace Digraph

variable {V D : Type}

/-- The line of a vertex, with further attributes if there are any. -/
def dotVertex (id extra : String) : String :=
  "  " ++ Dot.quote id ++ " [label=" ++ Dot.quote id ++
    (if extra.isEmpty then "" else ", " ++ extra) ++ "];\n"

/-- The line of an edge. -/
def dotEdge (source target : String) : String :=
  "  " ++ Dot.quote source ++ " -> " ++ Dot.quote target ++ ";\n"

/-- The graph as DOT text; `extra` gives further attributes of a vertex. -/
def toDotWith (g : Digraph V D) (name : String) (extra : V → String) : String :=
  "digraph " ++ Dot.quote name ++ " \x7b\n" ++
  "  rankdir=LR;\n" ++
  "  node [shape=box, style=\"filled,rounded\", fontname=\"Helvetica\", fontsize=10];\n" ++
  "\n" ++
  String.join (g.vertices.toList.map fun v => dotVertex v.1 (extra v.2)) ++
  "\n" ++
  String.join (g.arcsBySlot.map fun a => dotEdge a.source a.target) ++
  "\x7d\n"

/-- The graph as DOT text, its vertices labelled by their ids alone. -/
def toDot (g : Digraph V D) (name : String) : String := g.toDotWith name fun _ => ""

/-- A summary of the graph for logs. -/
def summary (g : Digraph V D) (observed : Bool) : String :=
  "Directed \x7b vertices: " ++ toString g.order ++ ", edges: " ++ toString g.size ++
    ", observed: " ++ toString observed ++ " \x7d"

end Digraph

/-- A summary of edge properties for logs; of a payload it says only that there is one. -/
def Properties.summary {D : Type} (p : Properties D) : String :=
  let attributes := p.attributes.toList.map fun e => Text.quoted e.1 ++ ": " ++ Text.quoted e.2
  "EdgeProperties \x7b attributes: \x7b" ++ ", ".intercalate attributes ++ "\x7d, data: " ++
    (if p.data.isSome then "Some(\"<payload>\")" else "None") ++ " \x7d"

end Groundwork
