/-
Realising abstract edges.

Expansion replaces each dependency of a site by the only chain of links that the knowledge base
and the constraint of the dependency allow.  Where there are several chains nothing is guessed.
Configuration then adjusts the resources at the ends of each dependency.  Both passes go on after
a failure and report all failures together.

* `Pass` — the state of a pass: the site, the failures and the calls made so far;
* `KnowledgeBase.choose` — the chain that stands for a dependency;
* `KnowledgeBase.expandEdge`, `KnowledgeBase.expand` — expansion of one or all dependencies;
* `KnowledgeBase.configureEdge`, `KnowledgeBase.configure` — the same for configuration.
-/
import Groundwork.Knowledge.Base

set_option autoImplicit false

namespace Groundwork

/-- The state of a pass over the dependencies of a site. -/
structure Pass where
  /-- The site. -/
  site : Site
  /-- The failures so far. -/
  faults : Faults := {}
  /-- The calls of behaviours so far. -/
  calls : List Call := []
deriving Inhabited

namespace Pass

/-- Reports a failure. -/
def fail (p : Pass) (f : Fault) : Pass := { p with faults := p.faults.push f }

/-- Notes that a behaviour is called. -/
def note (p : Pass) (activity : Activity) (call : Call) : Pass :=
  { p with
    site := { p.site with journal := p.site.journal ++ [.called activity call p.site.store] }
    calls := p.calls ++ [call] }

/-- The data of a dependency; the defaults stand in for a payload of another shape, which is
reported. -/
def dataOf (p : Pass) (defaults : EdgeData) (e : Digraph.Edge Handle Payload) : Pass × EdgeData :=
  match EdgeData.ofProperties e.properties defaults (p.site.key e.source) (p.site.key e.target) with
  | .ok d => (p, d)
  | .error f => (p.fail f, defaults)

end Pass

/-- The data with its ends filled in where they are open. -/
def EdgeData.between (d : EdgeData) (source target : Handle) : EdgeData :=
  { d with source := d.source.or (some source), target := d.target.or (some target) }

namespace KnowledgeBase

/-! ### Expansion -/

/-- The chain that stands for a dependency: none if no chain exists, and a failure if the
constraint leaves several chains or rejects all of them. -/
def choose (kb : KnowledgeBase) (source target : Ident) (c : EdgeConstraint) :
    Except Fault (Option (List TypeTag)) :=
  let paths := kb.paths source.tag target.tag
  if paths.isEmpty then .ok none
  else
    match paths.filter c.permits with
    | [] => .error (.unsatisfiable source.text target.text paths.length)
    | [path] => .ok (some path)
    | permitted => .error (.ambiguousPath source.text target.text permitted)

/-- The types of a chain between its ends. -/
def intermediates (path : List TypeTag) : List TypeTag := path.tail.dropLast

/-- The links of a chain. -/
def hops : List TypeTag → List Link
  | a :: b :: rest => ⟨a, b⟩ :: hops (b :: rest)
  | _ => []

/-- Realises one link. -/
def expandHop (kb : KnowledgeBase) (data : EdgeData) (p : Pass) (l : Link)
    (previous next : Handle) : Pass :=
  match kb.entry? l |>.bind LinkEntry.expand with
  | none => p
  | some behaviour =>
    let p := p.note .expand ⟨previous, next, data⟩
    let (site, result) := behaviour previous next data p.site
    let p := { p with site }
    match result with
    | .ok () => p
    | .error cause => p.fail (.expansion (p.site.key previous) (p.site.key next) cause)

/-- Realises links one after another.  Each goes on from the resource that the graph has under
the identity that the last one led to. -/
def expandHops (kb : KnowledgeBase) (data : EdgeData) (p : Pass) (previous : Handle) :
    List (Link × Handle) → Pass
  | [] => p
  | (l, next) :: rest =>
    let p := kb.expandHop data p l previous next
    let previous := (p.site.find? (p.site.store.ident next)).getD next
    kb.expandHops data p previous rest

/-- Realises a dependency by the links of a chain, given the resources for the types in between.
The dependency itself goes away if there are such types. -/
def expandAlong (kb : KnowledgeBase) (data : EdgeData) (p : Pass) (path : List TypeTag)
    (source target : Handle) (between : List Resource) : Pass :=
  let (created, store) := p.site.store.allocateAll between
  let p := { p with site := { p.site with store } }
  let walk (p : Pass) : Pass := kb.expandHops data p source ((hops path).zip (created ++ [target]))
  if created.isEmpty then walk p
  else
    match p.site.release (p.site.store.ident source) (p.site.store.ident target) with
    | (site, .ok ()) => walk { p with site }
    | (site, .error f) => ({ p with site } : Pass).fail f

/-- Expands one dependency. -/
def expandEdge (kb : KnowledgeBase) (defaults : EdgeData) (p : Pass)
    (e : Digraph.Edge Handle Payload) : Pass :=
  let (p, data) := p.dataOf defaults e
  let data := data.between e.source e.target
  match kb.choose (p.site.store.ident e.source) (p.site.store.ident e.target) data.constraint with
  | .error f => p.fail f
  | .ok none => p
  | .ok (some path) =>
    match (intermediates path).mapM kb.create with
    | .error f => p.fail f
    | .ok between => kb.expandAlong data p path e.source e.target between

/-- Expands every dependency that is there when the pass starts. -/
def expandPass (kb : KnowledgeBase) (defaults : EdgeData) (s : Site) : Pass :=
  s.dependencies.foldl (kb.expandEdge defaults) { site := s }

/-- Expands every dependency of a site. -/
def expand (kb : KnowledgeBase) (defaults : EdgeData) (s : Site) : Site × Except Fault Unit :=
  let p := kb.expandPass defaults s
  (p.site, p.faults.result)

/-! ### Configuration -/

/-- Configures one dependency. -/
def configureEdge (kb : KnowledgeBase) (defaults : EdgeData) (p : Pass)
    (e : Digraph.Edge Handle Payload) : Pass :=
  let source := p.site.store.ident e.source
  let target := p.site.store.ident e.target
  let (p, data) := p.dataOf defaults e
  match kb.entry? ⟨source.tag, target.tag⟩ |>.bind LinkEntry.configure with
  | none => p
  | some behaviour =>
    let p := p.note .configure ⟨e.source, e.target, data⟩
    let (store, result) := behaviour e.source e.target data p.site.store
    let p := { p with site := { p.site with store } }
    match result with
    | .ok () => p
    | .error cause => p.fail (.configuration source.text target.text cause)

/-- Configures every dependency of a site. -/
def configurePass (kb : KnowledgeBase) (defaults : EdgeData) (s : Site) : Pass :=
  s.dependencies.foldl (kb.configureEdge defaults) { site := s }

/-- Configures every dependency of a site. -/
def configure (kb : KnowledgeBase) (defaults : EdgeData) (s : Site) : Site × Except Fault Unit :=
  let p := kb.configurePass defaults s
  (p.site, p.faults.result)

end KnowledgeBase

end Groundwork
