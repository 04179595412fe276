/-
Directed graphs whose vertices are filed under texts.

There is at most one edge from a vertex to another.  Edges have two orders: the slot numbers, by
which a graph lists all its edges, and their age, by which it lists the edges at a vertex.  A
removed edge frees its slot, and a new edge takes the slot that was freed last.

## Main definitions

* `Properties` — the attributes and the payload of an edge, and how two of them merge;
* `Digraph` — the graph: vertices in order of their ids, edges from the newest to the oldest;
* `Digraph.insertVertex`, `Digraph.eraseVertex`, `Digraph.connect?`, `Digraph.disconnect` — the
  changes; `Digraph.Change` and the functions `…Changes` — what each of them announces;
* `Digraph.edges`, `Digraph.edgesOf`, `Digraph.neighbors`, `Digraph.roots` — the listings.
-/
import Groundwork.Fault
import Groundwork.Table

set_option autoImplicit false

namespace Groundwork

/-! ### Edge properties -/

/-- What an edge carries beside its ends. -/
structure Properties (D : Type) where
  /-- Named texts. -/
  attributes : Table String String := ∅
  /-- The payload, if there is one. -/
  data : Option D := none
deriving Inhabited

namespace Properties

variable {D : Type}

/-- The properties after new ones were added: attributes of the same name and a payload are
replaced, and the payload stays if none is given. -/
def merge (old new : Properties D) : Properties D where
  attributes := old.attributes.insertMany new.attributes.toList
  data := new.data.or old.data

/-- The properties with one attribute written. -/
def setAttribute (p : Properties D) (key value : String) : Properties D :=
  { p with attributes := p.attributes.insert key value }

end Properties

/-! ### Graphs -/

/-- An edge as a graph stores it. -/
structure Digraph.Arc (D : Type) where
  /-- The id of the vertex that the edge leaves. -/
  source : String
  /-- The id of the vertex that the edge enters. -/
  target : String
  /-- The number by which the edge is listed. -/
  slot : Nat
  /-- What the edge carries. -/
  properties : Properties D

/-- A directed graph with vertices of type `V` and edge payloads of type `D`. -/
structure Digraph (V D : Type) where
  /-- The vertices by their ids. -/
  vertices : Table String V := ∅
  /-- The edges, the newest first. -/
  arcs : List (Digraph.Arc D) := []
  /-- The slots without an edge, the one freed last first. -/
  free : List Nat := []
deriving Inhabited

/-- Which edges at a vertex are meant. -/
inductive Direction where
  /-- The edges that leave the vertex. -/
  | outgoing
  /-- The edges that enter the vertex. -/
  | incoming
deriving DecidableEq, Inhabited

namespace Digraph

variable {V D : Type}

/-- The end of the edge on the side from which a walk in this direction comes. -/
def Arc.near (d : Direction) (a : Arc D) : String :=
  match d with
  | .outgoing => a.source
  | .incoming => a.target

/-- The end of the edge to which a walk in this direction leads. -/
def Arc.far (d : Direction) (a : Arc D) : String :=
  match d with
  | .outgoing => a.target
  | .incoming => a.source

/-- Whether the edge goes from `s` to `t`. -/
def Arc.joins (s t : String) (a : Arc D) : Bool := a.source == s && a.target == t

/-! ### Vertices -/

/-- The value of a vertex. -/
def get? (g : Digraph V D) (id : String) : Option V := g.vertices.get? id

/-- Whether there is a vertex with this id. -/
def contains (g : Digraph V D) (id : String) : Bool := g.vertices.contains id

/-- The ids of the vertices, in order. -/
def ids (g : Digraph V D) : List String := g.vertices.keys

/-- The values of the vertices, in the order of their ids. -/
def values (g : Digraph V D) : List V := g.vertices.values

/-- The number of vertices. -/
def order (g : Digraph V D) : Nat := g.vertices.size

/-- The number of edges. -/
def size (g : Digraph V D) : Nat := g.arcs.length

/-! ### Edges -/

/-- The stored edge from `s` to `t`. -/
def arc? (g : Digraph V D) (s t : String) : Option (Arc D) := g.arcs.find? (Arc.joins s t)

/-- Whether there is an edge from `s` to `t`. -/
def hasEdge (g : Digraph V D) (s t : String) : Bool := g.arcs.any (Arc.joins s t)

/-- What the edge from `s` to `t` carries. -/
def properties? (g : Digraph V D) (s t : String) : Option (Properties D) :=
  (g.arc? s t).map Arc.properties

/-- All stored edges, by slot. -/
def arcsBySlot (g : Digraph V D) : List (Arc D) := g.arcs.mergeSort fun a b => a.slot ≤ b.slot

/-- The stored edges at a vertex, the newest first. -/
def arcsAt (g : Digraph V D) (id : String) (d : Direction) : List (Arc D) :=
  g.arcs.filter fun a => a.near d == id

/-- The ids of the vertices one step away, the newest edge first. -/
def adjacent (g : Digraph V D) (d : Direction) (id : String) : List String :=
  (g.arcsAt id d).map (Arc.far d)

/-- The slot that a new edge gets. -/
def nextSlot (g : Digraph V D) : Nat := g.free.headD g.arcs.length

/-! ### Edges with the values of their ends -/

/-- An edge as a caller sees it. -/
structure Edge (V D : Type) where
  /-- The value of the vertex that the edge leaves. -/
  source : V
  /-- The value of the vertex that the edge enters. -/
  target : V
  /-- What the edge carries. -/
  properties : Properties D

/-- The edge with the values of its ends. -/
def resolve (g : Digraph V D) (a : Arc D) : Option (Edge V D) := do
  let source ← g.get? a.source
  let target ← g.get? a.target
  return { source, target, properties := a.properties }

/-- All edges, by slot. -/
def edges (g : Digraph V D) : List (Edge V D) := g.arcsBySlot.filterMap g.resolve

/-- The edge from `s` to `t`. -/
def edge? (g : Digraph V D) (s t : String) : Option (Edge V D) := (g.arc? s t).bind g.resolve

/-- The edges at a vertex, the newest first. -/
def edgesOf (g : Digraph V D) (id : String) (d : Direction) : List (Edge V D) :=
  (g.arcsAt id d).filterMap g.resolve

/-- The vertices one step away, the newest edge first. -/
def neighbors (g : Digraph V D) (id : String) (d : Direction) : List V :=
  (g.adjacent d id).filterMap g.get?

/-- The vertices that no edge enters, in the order of their ids. -/
def roots (g : Digraph V D) : List V :=
  (g.vertices.filter fun id _ => (g.arcsAt id .incoming).isEmpty).values

/-! ### Changes -/

/-- What a change of a graph announces. -/
inductive Change where
  /-- A vertex is new. -/
  | vertexAdded (id : String)
  /-- An edge is new. -/
  | edgeAdded (source target : String)
  /-- An edge is gone. -/
  | edgeRemoved (source target : String)
  /-- A vertex is gone. -/
  | vertexRemoved (id : String)
deriving DecidableEq, Inhabited

/-- Adds a vertex, or gives a new value to the vertex with this id and keeps its edges. -/
def insertVertex (g : Digraph V D) (id : String) (v : V) : Digraph V D :=
  { g with vertices := g.vertices.insert id v }

/-- A vertex is announced unless its id was there before. -/
def insertVertexChanges (g : Digraph V D) (id : String) : List Change :=
  if g.contains id then [] else [.vertexAdded id]

/-- The edges that touch a vertex, in the order in which they go with it: those that leave it and
then those that only enter it, the newest first. -/
def incident (g : Digraph V D) (id : String) : List (Arc D) :=
  g.arcsAt id .outgoing ++ (g.arcsAt id .incoming).filter fun a => a.source != id

/-- Removes a vertex and every edge that touches it. -/
def eraseVertex (g : Digraph V D) (id : String) : Digraph V D where
  vertices := g.vertices.erase id
  arcs := g.arcs.filter fun a => a.source != id && a.target != id
  free := ((g.incident id).map Arc.slot).reverse ++ g.free

/-- Each edge is announced as it goes, and then the vertex. -/
def eraseVertexChanges (g : Digraph V D) (id : String) : List Change :=
  if g.contains id then
    (g.incident id).map (fun a => .edgeRemoved a.source a.target) ++ [.vertexRemoved id]
  else []

/-- Changes the properties of the edge from `s` to `t`, if there is one. -/
def modifyProperties (g : Digraph V D) (s t : String) (f : Properties D → Properties D) :
    Digraph V D :=
  { g with
    arcs := g.arcs.map fun a =>
      if a.joins s t then { a with properties := f a.properties } else a }

/-- Adds an edge between two vertices, or merges new properties into the edge that is there.
There is no result if an end is missing. -/
def connect? (g : Digraph V D) (s t : String) (p : Properties D) : Option (Digraph V D) :=
  if g.contains s && g.contains t then
    if g.hasEdge s t then some (g.modifyProperties s t (·.merge p))
    else
      some { g with
        arcs := ⟨s, t, g.nextSlot, p⟩ :: g.arcs
        free := g.free.tail }
  else none

/-- Adds or merges an edge where its ends are there, and else leaves the graph as it is. -/
def connect (g : Digraph V D) (s t : String) (p : Properties D) : Digraph V D :=
  (g.connect? s t p).getD g

/-- An edge is announced if it is new. -/
def connectChanges (g : Digraph V D) (s t : String) : List Change :=
  if g.contains s && g.contains t && !g.hasEdge s t then [.edgeAdded s t] else []

/-- Removes the edge from `s` to `t` and gives back what it carried. -/
def disconnect (g : Digraph V D) (s t : String) : Except Fault (Properties D × Digraph V D) :=
  match g.arc? s t with
  | none => .error (.edgeNotFound s t)
  | some a =>
    .ok (a.properties,
      { g with
        arcs := g.arcs.filter fun a => !a.joins s t
        free := a.slot :: g.free })

/-- A removed edge is announced. -/
def disconnectChanges (g : Digraph V D) (s t : String) : List Change :=
  if g.hasEdge s t then [.edgeRemoved s t] else []

end Digraph

end Groundwork
