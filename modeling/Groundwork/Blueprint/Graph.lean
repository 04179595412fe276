/-
From blueprints to construct graphs and back.

A bad node or a bad edge does not end the pass over a blueprint, so more than one fault can be
reported.  An edge that touches a bad node is passed over.

* `Blueprint.toGraph` — the graph that a blueprint declares;
* `Blueprint.ofGraph` — the blueprint of a graph;
* `Blueprint.load` — the graph in a file;
* `ConstructGraph.report` — what there is to say about a graph.
-/
import Groundwork.Blueprint.Basic
import Groundwork.Construct.Graph
import Groundwork.Storage.Disk

set_option autoImplicit false

namespace Groundwork

namespace Blueprint

/-- The construct that a node declares. -/
def construct (name kind : String) : Except Fault Construct := do
  let c := Construct.ofKind (← Kind.parse kind) name
  let _ ← Ident.parse c.ident.text
  return c

/-- The state of the pass over a blueprint. -/
structure Raising where
  /-- The graph so far. -/
  graph : ConstructGraph := {}
  /-- The identities of the declared constructs, by name. -/
  idents : Table String Ident := ∅
  /-- The names of the bad nodes. -/
  rejected : List String := []
  /-- What is wrong with the blueprint. -/
  faults : Faults := {}

namespace Raising

/-- Adds a node. -/
def addNode (r : Raising) (name kind : String) : Raising :=
  match construct name kind with
  | .ok c => { r with graph := r.graph.insert c, idents := r.idents.insert name c.ident }
  | .error f => { r with faults := r.faults.push f, rejected := r.rejected ++ [name] }

/-- The identity of an end of an edge. -/
def endpoint (r : Raising) (e : EdgeSpec) (name : String) : Except Fault Ident :=
  match r.idents.get? name with
  | some i => .ok i
  | none => .error (.unknownEndpoint e.source e.target name)

/-- Adds an edge. -/
def addEdge (r : Raising) (e : EdgeSpec) : Raising :=
  if r.rejected.contains e.source || r.rejected.contains e.target then r
  else
    match r.endpoint e e.source, r.endpoint e e.target with
    | .ok source, .ok target => { r with graph := r.graph.depend source target }
    | .error f, _ => { r with faults := r.faults.push f }
    | _, .error f => { r with faults := r.faults.push f }

end Raising

/-- The graph that a blueprint declares, or what was found to be wrong with the blueprint. -/
def toGraph (b : Blueprint) : Except Fault ConstructGraph :=
  let r := b.kinds.toList.foldl (fun r n => r.addNode n.1 n.2) ({} : Raising)
  let r := b.edges.foldl Raising.addEdge r
  r.faults.result.map fun _ => r.graph

/-- The blueprint of a graph. -/
def ofGraph (g : ConstructGraph) : Blueprint where
  kinds := .ofList (g.values.map fun c => (c.name, c.kind.name))
  edges := g.edges.map fun e => ⟨e.source.name, e.target.name⟩

/-- The graph that the text of a blueprint declares. -/
def parseGraph (text : String) (format : BlueprintFormat) : Except Fault ConstructGraph :=
  (parse text format).bind toGraph

/-- The graph that the blueprint in a file declares. -/
def load (d : Disk) (p : FilePath) : Except Fault ConstructGraph :=
  match d.readText p with
  | .ok text => parseGraph text (.ofPath p)
  | .error f => .error (.io f.message)

end Blueprint

/-- What there is to say about a construct graph. -/
structure ConstructGraph.Report where
  /-- The constructs, by the texts of their identities. -/
  constructs : List String
  /-- The dependencies, by slot. -/
  dependencies : List (String × String)
  /-- The constructs in an order in which each comes before those it depends on. -/
  order : Except Fault (List String)
  /-- The constructs that nothing depends on. -/
  roots : List String

/-- What there is to say about a construct graph. -/
def ConstructGraph.report (g : ConstructGraph) : ConstructGraph.Report where
  constructs := g.values.map (·.ident.text)
  dependencies := g.edges.map fun e => (e.source.ident.text, e.target.ident.text)
  order := g.topologicalOrder
  roots := g.roots.map (·.ident.text)

end Groundwork
