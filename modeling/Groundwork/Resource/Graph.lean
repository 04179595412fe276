/-
Graphs of resources.

A site holds the resources, the graph of their dependencies and a journal of what happened.  The
graph files a resource under the text that its identity had when it came in; a resource that gets
another identity later stays where it is, and is looked up under its new text.

* `Site`, `Event` — sites and the entries of their journals;
* `Site.insert`, `Site.erase`, `Site.depend`, `Site.dependByIdent`, `Site.dependDeclared`,
  `Site.release`, `Site.replace` — the changes; none of them closes a cycle;
* `Site.topologicalSort`, `Site.deploymentOrder`, `Site.shortestPath`, … — the listings.
-/
import Groundwork.Digraph.Dot
import Groundwork.Digraph.Order
import Groundwork.Digraph.Walk
import Groundwork.Resource.EdgeData

set_option autoImplicit false

namespace Groundwork

/-- A graph of resources. -/
abbrev ResourceGraph := Digraph Handle Payload

/-- Which behaviour of an edge runs. -/
inductive Activity where
  /-- The edge is realised in the graph. -/
  | expand
  /-- The resources at the ends of the edge are adjusted. -/
  | configure
deriving DecidableEq, Inhabited

/-- A call of a behaviour. -/
structure Call where
  /-- The resource that the edge leaves. -/
  source : Handle
  /-- The resource that the edge enters. -/
  target : Handle
  /-- What the edge asks for. -/
  data : EdgeData
deriving DecidableEq, Inhabited

/-- Something that happened. -/
inductive Event where
  /-- The graph changed. -/
  | change (change : Digraph.Change)
  /-- A behaviour was called while the resources were as given. -/
  | called (activity : Activity) (call : Call) (store : Store)

/-- Resources, the graph of their dependencies, and what happened to them. -/
structure Site where
  /-- The resources. -/
  store : Store := {}
  /-- The graph. -/
  graph : ResourceGraph := {}
  /-- Whether changes of the graph go into the journal. -/
  observed : Bool := false
  /-- What happened, the earliest first. -/
  journal : List Event := []
deriving Inhabited

namespace Site

/-- The text of the identity of a resource. -/
def key (s : Site) (h : Handle) : String := s.store.key h

/-- Puts a changed graph in place, and the changes into the journal. -/
def commit (s : Site) (graph : ResourceGraph) (changes : List Digraph.Change) : Site :=
  { s with
    graph
    journal := if s.observed then s.journal ++ changes.map .change else s.journal }

/-- Puts a new resource into the store. -/
def allocate (s : Site) (r : Resource) : Handle × Site :=
  let (h, store) := s.store.allocate r
  (h, { s with store })

/-! ### Changes -/

/-- The resource that the graph has under an identity. -/
def find? (s : Site) (i : Ident) : Option Handle := s.graph.get? i.text

/-- Files a resource unless its text is taken, and gives back the resource filed there. -/
def insert (s : Site) (h : Handle) : Site × Handle :=
  match s.graph.get? (s.key h) with
  | some stored => (s, stored)
  | none =>
    (s.commit (s.graph.insertVertex (s.key h) h) (s.graph.insertVertexChanges (s.key h)), h)

/-- Removes a resource and every dependency that touches it. -/
def erase (s : Site) (i : Ident) : Site × Except Fault Unit :=
  if s.graph.contains i.text then
    (s.commit (s.graph.eraseVertex i.text) (s.graph.eraseVertexChanges i.text), .ok ())
  else (s, .error (.vertexNotFound i.text))

/-- Adds a dependency between filed resources unless it would close a cycle. -/
def wire (s : Site) (source target : String) (p : Properties Payload) : Site × Except Fault Unit :=
  if s.graph.createsCycle source target then (s, .error (.wouldCycle source target))
  else
    (s.commit (s.graph.connect source target p) (s.graph.connectChanges source target), .ok ())

/-- Makes one resource depend on another; both are filed first.  A resource that would depend on
itself is left alone. -/
def depend (s : Site) (source target : Handle) (p : Properties Payload) :
    Site × Except Fault Unit :=
  if s.key source = s.key target then (s, .ok ())
  else (((s.insert source).1.insert target).1).wire (s.key source) (s.key target) p

/-- Makes one filed resource depend on another. -/
def dependByIdent (s : Site) (source target : Ident) : Site × Except Fault Unit :=
  if !s.graph.contains source.text then (s, .error (.vertexNotFound source.text))
  else if !s.graph.contains target.text then (s, .error (.vertexNotFound target.text))
  else s.wire source.text target.text {}

/-- Makes a resource depend on what a reference leads to; an identity that is not filed is passed
over. -/
def dependOn (s : Site) (source : Handle) (r : Reference) : Site × Except Fault Unit :=
  match r with
  | .handle target => s.depend source target {}
  | .ident i =>
    match s.find? i with
    | some target => s.depend source target {}
    | none => (s, .ok ())

/-- Makes a resource depend on everything it declares. -/
def dependDeclared (s : Site) (source : Handle) : Site × Except Fault Unit :=
  let (s, faults) := (s.store.get source).declared.foldl (fun (s, faults) r =>
    let (s, result) := s.dependOn source r
    (s, faults.pushResult result)) (s, ({} : Faults))
  (s, faults.result)

/-- Removes a dependency. -/
def release (s : Site) (source target : Ident) : Site × Except Fault Unit :=
  match s.graph.disconnect source.text target.text with
  | .ok (_, graph) => (s.commit graph (s.graph.disconnectChanges source.text target.text), .ok ())
  | .error f => (s, .error f)

/-- Makes changes in turn until one fails. -/
def attempt (s : Site) : List (Site → Site × Except Fault Unit) → Site × Except Fault Unit
  | [] => (s, .ok ())
  | change :: rest =>
    match change s with
    | (s, .ok ()) => s.attempt rest
    | (s, .error f) => (s, .error f)

/-- Puts a resource in the place of another: the dependencies of the old one go over to the new
one, first those that leave it and then those that enter it. -/
def replace (s : Site) (old : Ident) (new : Handle) : Site × Except Fault Unit :=
  match s.find? old with
  | none => (s, .error (.vertexNotFound old.text))
  | some present =>
    let (s, new) := s.insert new
    let leaving := s.graph.edgesOf (s.key present) .outgoing
    match s.attempt (leaving.map fun e s => s.depend new e.target e.properties) with
    | (s, .error f) => (s, .error f)
    | (s, .ok ()) =>
      let entering := s.graph.edgesOf (s.key present) .incoming
      match s.attempt (entering.map fun e s => s.depend e.source new e.properties) with
      | (s, .error f) => (s, .error f)
      | (s, .ok ()) => s.erase old

/-! ### Listings -/

/-- The resources in the order in which they are filed. -/
def resources (s : Site) : List Handle := s.graph.values

/-- The dependencies, by slot. -/
def dependencies (s : Site) : List (Digraph.Edge Handle Payload) := s.graph.edges

/-- The filed resources of a form. -/
def ofForm (s : Site) (f : Form) : List Handle :=
  s.resources.filter fun h => (s.store.get h).form == f

/-- The filed resources that a construct led to. -/
def ownedBy (s : Site) (i : Ident) : List Handle :=
  s.resources.filter fun h => (s.store.get h).owners.contains i

/-- The dependencies at a resource. -/
def dependenciesAt (s : Site) (h : Handle) (d : Direction) : List (Digraph.Edge Handle Payload) :=
  s.graph.edgesOf (s.key h) d

/-- The resources one dependency away. -/
def neighbors (s : Site) (h : Handle) (d : Direction) : List Handle :=
  s.graph.neighbors (s.key h) d

/-- The resources of a form one dependency away. -/
def neighborsOfForm (s : Site) (h : Handle) (d : Direction) (f : Form) : List Handle :=
  (s.neighbors h d).filter fun h => (s.store.get h).form == f

/-- The resources any number of dependencies away. -/
def reachable (s : Site) (h : Handle) (d : Direction) : List Handle :=
  s.graph.reachable (s.key h) d

/-- The resources on a path with the fewest dependencies. -/
def shortestPath (s : Site) (source target : Ident) : Option (List Handle) :=
  (s.graph.shortestPath source.text target.text).bind fun ids => ids.mapM s.graph.get?

/-- The resources in an order in which each comes before those it depends on. -/
def topologicalSort (s : Site) : Except Fault (List Handle) :=
  s.graph.topologicalOrder.map fun ids => ids.filterMap s.graph.get?

/-- The resources in an order in which each comes after those it depends on. -/
def deploymentOrder (s : Site) : Except Fault (List Handle) :=
  s.topologicalSort.map List.reverse

/-- The graph as DOT text. -/
def drawing (s : Site) : String := s.graph.toDot "ResourceGraph"

end Site

end Groundwork
