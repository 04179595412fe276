/-
Topological order.

A vertex is ready once all edges that enter it come from vertices already placed.  Placing the
least ready id again and again gives an order that is the same for equal graphs.

* `Digraph.Placing` — the state of the run: how many edges each vertex still waits for, which
  vertices are ready, and which are placed;
* `Digraph.topologicalOrder` — all ids in order, or the ids that a cycle keeps from being placed.
-/
import Groundwork.Digraph.Basic

set_option autoImplicit false

namespace Groundwork.Digraph

variable {V D : Type}

/-- The state of a run that places vertices one by one. -/
structure Placing where
  /-- For each vertex the number of edges into it whose source is not placed yet. -/
  waiting : Table String Nat
  /-- The vertices that may be placed. -/
  ready : Table String Unit
  /-- The placed vertices, in order. -/
  placed : List String

namespace Placing

/-- The state before anything is placed. -/
def start (g : Digraph V D) : Placing where
  waiting := g.vertices.map fun id _ => (g.arcsAt id .incoming).length
  ready := (g.vertices.filter fun id _ => (g.arcsAt id .incoming).isEmpty).map fun _ _ => ()
  placed := []

/-- One edge into `id` has its source placed. -/
def release (p : Placing) (id : String) : Placing :=
  match p.waiting.get? id with
  | none => p
  | some n =>
    { p with
      waiting := p.waiting.insert id (n - 1)
      ready := if n - 1 = 0 then p.ready.insert id () else p.ready }

/-- Places the least ready id, if there is one. -/
def step (g : Digraph V D) (p : Placing) : Option Placing :=
  match p.ready.keys with
  | [] => none
  | id :: _ =>
    some ((g.adjacent .outgoing id).foldl release
      { p with ready := p.ready.erase id, placed := p.placed ++ [id] })

/-- Places vertices until none is ready, at most `n` of them. -/
def run (g : Digraph V D) : Nat → Placing → Placing
  | 0, p => p
  | n + 1, p =>
    match p.step g with
    | none => p
    | some p => run g n p

/-- The vertices that still wait for an edge, in order. -/
def blocked (p : Placing) : List String := (p.waiting.filter fun _ n => n > 0).keys

end Placing

/-- The ids in an order in which the source of every edge comes before its target. -/
def topologicalOrder (g : Digraph V D) : Except Fault (List String) :=
  let p := (Placing.start g).run g g.order
  if p.placed.length = g.order then .ok p.placed else .error (.cycle p.blocked)

end Groundwork.Digraph
