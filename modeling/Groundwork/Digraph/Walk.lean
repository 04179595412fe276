/-
Walks in a directed graph.

All walks are breadth first and take the edges at a vertex from the newest to the oldest.  A walk
enters each vertex at most once and, apart from its start, only along an edge, so the number of
edges bounds its length.

* `Digraph.sweep`, `Digraph.reachable` — the vertices that a walk finds, in order;
* `Digraph.predecessors`, `Digraph.retrace` — where a walk found its vertices from, and the way
  back;
* `Digraph.shortestPath` — a path with the fewest edges;
* `Digraph.createsCycle` — whether one more edge would close a cycle.
-/
import Groundwork.Digraph.Basic

set_option autoImplicit false

namespace Groundwork.Digraph

variable {V D : Type}

/-- The ids found by a walk that has still to leave the vertices of `queue`, after those already
found; `next` gives the vertices one step away. -/
def sweepFrom (next : String → List String) : Nat → List String → List String → List String
  | 0, _, found => found
  | _ + 1, [], found => found
  | n + 1, v :: queue, found =>
    let new := (next v).filter (· ∉ found)
    sweepFrom next n (queue ++ new) (found ++ new)

/-- The ids found by a walk from `id`, itself first. -/
def sweep (g : Digraph V D) (d : Direction) (id : String) : List String :=
  sweepFrom (g.adjacent d) (g.size + 1) [id] [id]

/-- The vertices that a walk from `id` finds, without `id`, in the order of their discovery. -/
def reachable (g : Digraph V D) (id : String) (d : Direction) : List V :=
  if g.contains id then (g.sweep d id).tail.filterMap g.get? else []

/-- The vertices from which a walk from `start` found the others by the time it comes to `goal`.
It has still to leave the vertices of `queue`, and `previous` says where each vertex found so far,
apart from `start`, was found from. -/
def predecessorsFrom (next : String → List String) (start goal : String) :
    Nat → List String → Table String String → Option (Table String String)
  | n + 1, v :: queue, previous =>
    if v = goal then some previous
    else
      let new := (next v).filter fun w => w ≠ start && !previous.contains w
      predecessorsFrom next start goal n (queue ++ new) (previous.insertMany (new.map (·, v)))
  | _, _, _ => none

/-- Where a walk from `s` found each vertex from, once it comes to `t`. -/
def predecessors (g : Digraph V D) (s t : String) : Option (Table String String) :=
  predecessorsFrom (g.adjacent .outgoing) s t (g.size + 1) [s] ∅

/-- The way back from a vertex to the vertices that it and the ones before it were found from, in at
most `n` steps. -/
def retrace (previous : Table String String) : Nat → String → List String
  | 0, v => [v]
  | n + 1, v =>
    match previous.get? v with
    | none => [v]
    | some u => v :: retrace previous n u

/-- The ids on a path with the fewest edges from `s` to `t`, both included. -/
def shortestPath (g : Digraph V D) (s t : String) : Option (List String) :=
  if g.contains s && g.contains t then
    (g.predecessors s t).map fun previous => (retrace previous previous.size t).reverse
  else none

/-- Whether an edge from `s` to `t` would close a cycle. -/
def createsCycle (g : Digraph V D) (s t : String) : Bool :=
  s == t || (g.contains s && g.contains t && (g.sweep .outgoing t).contains s)

end Groundwork.Digraph
