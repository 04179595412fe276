/-
Behaviours written as lists of actions.

* `Action` — what a behaviour can do;
* `Script.expansion`, `Script.configuration` — the behaviours that take their actions in turn
  until one of them fails.
-/
import Groundwork.Knowledge.Base

set_option autoImplicit false

namespace Groundwork

/-- What a behaviour can do with a link. -/
inductive Action where
  /-- Makes the start of the link depend on its end. -/
  | link
  /-- The same, with the data of the abstract edge on the dependency. -/
  | linkData
  /-- Makes the end of the link depend on its start. -/
  | reverse
  /-- Removes the dependency of the start on the end. -/
  | unlink
  /-- Adds a resource and lets the dependency go through it. -/
  | through (resource : Resource)
  /-- Removes a resource. -/
  | drop (ident : Ident)
  /-- Leaves a note on both resources. -/
  | tag
  /-- Names the end of the link after the resource that the abstract edge leaves. -/
  | rename (ending : String)
  /-- Fails. -/
  | fail (cause : Cause)
deriving Inhabited

namespace Script

/-- Leaves a note on both resources. -/
def tagBoth (activity : String) (source target : Handle) (data : EdgeData) (s : Store) : Store :=
  let note (place : String) : String := activity ++ ":" ++ data.app ++ ":" ++ place
  (s.tag source (note "from")).tag target (note "to")

/-- Names a resource after the one that the abstract edge leaves. -/
def renameAfter (target : Handle) (data : EdgeData) (ending : String) (s : Store) : Store :=
  let stem := data.source.elim "" fun h => (s.ident h).name
  s.modify target fun r => { r with ident := { r.ident with name := stem ++ ending } }

/-- A failure of the library as a cause. -/
def liftFault {σ : Type} (r : σ × Except Fault Unit) : σ × Except Cause Unit :=
  (r.1, r.2.mapError .fault)

/-- One action of an expansion. -/
def expandAction (source target : Handle) (data : EdgeData) (a : Action) (s : Site) :
    Site × Except Cause Unit :=
  match a with
  | .link => liftFault (s.depend source target {})
  | .linkData => liftFault (s.depend source target { data := some (.data data) })
  | .reverse => liftFault (s.depend target source {})
  | .unlink => liftFault (s.release (s.store.ident source) (s.store.ident target))
  | .through r =>
    let (h, s) := s.allocate r
    let (s, middle) := s.insert h
    match s.depend source middle {} with
    | (s, .ok ()) => liftFault (s.depend middle target {})
    | failed => liftFault failed
  | .drop i => liftFault (s.erase i)
  | .tag => ({ s with store := tagBoth "expand" source target data s.store }, .ok ())
  | .rename ending => ({ s with store := renameAfter target data ending s.store }, .ok ())
  | .fail cause => (s, .error cause)

/-- One action of a configuration; those that need the graph do nothing. -/
def configureAction (source target : Handle) (data : EdgeData) (a : Action) (s : Store) :
    Store × Except Cause Unit :=
  match a with
  | .tag => (tagBoth "configure" source target data s, .ok ())
  | .rename ending => (renameAfter target data ending s, .ok ())
  | .fail cause => (s, .error cause)
  | _ => (s, .ok ())

/-- Takes actions in turn until one fails. -/
def inTurn {σ : Type} (act : Action → σ → σ × Except Cause Unit) :
    List Action → σ → σ × Except Cause Unit
  | [], s => (s, .ok ())
  | a :: rest, s =>
    match act a s with
    | (s, .ok ()) => inTurn act rest s
    | failed => failed

/-- The expansion that takes these actions. -/
def expansion (l : List Action) : Expansion := fun source target data =>
  inTurn (expandAction source target data) l

/-- The configuration that takes these actions. -/
def configuration (l : List Action) : Configuration := fun source target data =>
  inTurn (configureAction source target data) l

end Script

end Groundwork
