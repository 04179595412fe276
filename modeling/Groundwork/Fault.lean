/-
Failures and their texts.

Every operation of the library fails with a `Fault`.  A fault may carry a `Cause`, the report of
a behaviour or a pipeline stage, and a cause may in turn hold a fault, so the two are defined
together.  The report of a failed stage is flat: it holds the names of all stages on the way and a
`Reason`, which has no place for the report of another stage.  A `Fault.stage` that comes up as a
failure of the library is a failure like any other.

* `Fault`, `Cause` — what went wrong, and what a behaviour reports;
* `Reason` — a report that is not the failure of a stage;
* `Cause.note`, `Cause.context`, `Cause.fault` — the reports that can be made;
* `Fault.message` — the one-line (or, for `Fault.many`, bulleted) text of a fault;
* `Fault.sources`, `Cause.texts`, `Reason.texts` — the texts of the reasons below, outermost first;
* `Cause.detail` — all texts of a cause in one line;
* `StageFault` — the failure of a pipeline stage, whose path grows as it passes outward;
* `Faults` — the failures collected by a pass that goes on after each of them.
-/
import Groundwork.TypeTag

set_option autoImplicit false

namespace Groundwork

mutual

/-- What can go wrong. -/
inductive Fault where
  /-- No vertex has this id. -/
  | vertexNotFound (id : String)
  /-- No edge joins these vertices. -/
  | edgeNotFound (source target : String)
  /-- A cycle keeps these vertices from being ordered. -/
  | cycle (remaining : List String)
  /-- The edge would close a cycle. -/
  | wouldCycle (source target : String)
  /-- The text is not an identity. -/
  | invalidId (text reason : String)
  /-- No construct kind has this name. -/
  | unknownKind (text : String)
  /-- The edge names a node that is not declared. -/
  | unknownEndpoint (source target node : String)
  /-- The knowledge base has an entry for this pair of types already. -/
  | duplicateEntry (source target : TypeTag)
  /-- Nothing can build a resource of this type. -/
  | missingFactory (tag : TypeTag)
  /-- The payload of the edge is not edge data. -/
  | edgeDataShape (source target : String)
  /-- Several paths satisfy the constraint of the edge. -/
  | ambiguousPath (source target : String) (paths : List (List TypeTag))
  /-- There are paths for the edge, and its constraint rejects each of them. -/
  | unsatisfiable (source target : String) (candidates : Nat)
  /-- The expansion behaviour of a hop failed. -/
  | expansion (source target : String) (cause : Cause)
  /-- The configuration behaviour of an edge failed. -/
  | configuration (source target : String) (cause : Cause)
  /-- A file could not be written. -/
  | output (detail : String)
  /-- The file system refused an operation. -/
  | io (detail : String)
  /-- The text is not a YAML document of the wanted shape. -/
  | yaml (detail : String)
  /-- The text is not a JSON document of the wanted shape. -/
  | json (detail : String)
  /-- The settings cannot be read. -/
  | config (detail : String)
  /-- The settings cannot be written as TOML. -/
  | toml (detail : String)
  /-- Several failures, in the order in which they arose. -/
  | many (faults : List Fault)
  /-- A pipeline stage failed; the path leads to it from the outermost stage. -/
  | stage (path : List String) (reason : Reason)

/-- What a behaviour or a stage reports when no stage below it has failed. -/
inductive Reason where
  /-- A plain text. -/
  | note (text : String)
  /-- A text put before another reason. -/
  | context (text : String) (inner : Reason)
  /-- A failure of the library. -/
  | fault (fault : Fault)

/-- What a behaviour or a stage gives as the reason of its failure. -/
inductive Cause where
  /-- No stage below has failed. -/
  | bare (reason : Reason)
  /-- The failure of a stage below, with texts put before it. -/
  | stage (contexts : List String) (path : List String) (reason : Reason)

end

namespace Cause

/-- A plain text as a cause. -/
@[match_pattern] def note (text : String) : Cause := .bare (.note text)

/-- A failure of the library as a cause. -/
@[match_pattern] def fault (f : Fault) : Cause := .bare (.fault f)

/-- A text put before a cause. -/
def context (text : String) : Cause → Cause
  | .bare reason => .bare (.context text reason)
  | .stage contexts path reason => .stage (text :: contexts) path reason

end Cause

instance : Inhabited Reason := ⟨.note ""⟩

instance : Inhabited Cause := ⟨.note ""⟩

instance : Inhabited Fault := ⟨.output ""⟩

/-! ### Texts -/

/-- The text of a list of paths: each in brackets, its hops joined by arrows. -/
def Fault.pathsText (paths : List (List TypeTag)) : String :=
  ", ".intercalate (paths.map fun p => "[" ++ " -> ".intercalate (p.map TypeTag.text) ++ "]")

/-- The text of several failures, given their texts. -/
def Fault.manyText : List String → String
  | [] => "<nil>"
  | [only] => only
  | texts =>
    toString texts.length ++ " errors occurred:" ++
      String.join (texts.map fun t => "\n\t* " ++ t)

/-- The text of a failed stage, given its path and the texts of its cause. -/
def Fault.stageText (path : List String) (causes : List String) : String :=
  "plugin '" ++ "/".intercalate path ++ "' failed: " ++ ": ".intercalate causes

mutual

/-- The text of a failure. -/
def Fault.message : Fault → String
  | .vertexNotFound id => "vertex not found: " ++ id
  | .edgeNotFound s t => "edge not found: " ++ s ++ " -> " ++ t
  | .cycle remaining =>
    "graph contains a cycle; could not order: " ++ ", ".intercalate remaining
  | .wouldCycle s t =>
    "not adding dependency " ++ s ++ " -> " ++ t ++ ": a cycle would be created"
  | .invalidId text reason => "invalid resource id '" ++ text ++ "': " ++ reason
  | .unknownKind text => "unknown construct kind '" ++ text ++ "'"
  | .unknownEndpoint s t node =>
    "edge " ++ s ++ " -> " ++ t ++ " references unknown node '" ++ node ++ "'"
  | .duplicateEntry s t =>
    "knowledge base already has an entry for " ++ s.text ++ " -> " ++ t.text
  | .missingFactory tag => "no factory registered for resource type " ++ tag.text
  | .edgeDataShape s t =>
    "edge properties for edge " ++ s ++ " -> " ++ t ++ " do not satisfy edge data format"
  | .ambiguousPath s t paths =>
    "found multiple paths which satisfy constraints for edge " ++ s ++ " -> " ++ t ++
      ". Paths: " ++ Fault.pathsText paths
  | .unsatisfiable s t candidates =>
    "no path for edge " ++ s ++ " -> " ++ t ++ " satisfies its constraints (" ++
      toString candidates ++ " candidate(s) rejected)"
  | .expansion s t cause =>
    "expanding " ++ s ++ " -> " ++ t ++ ": " ++ ": ".intercalate cause.texts
  | .configuration s t cause =>
    "configuring " ++ s ++ " -> " ++ t ++ ": " ++ ": ".intercalate cause.texts
  | .output detail => "output error: " ++ detail
  | .io detail => "IO error: " ++ detail
  | .yaml detail => "YAML error: " ++ detail
  | .json detail => "JSON error: " ++ detail
  | .config detail => "configuration error: " ++ detail
  | .toml detail => "TOML error: " ++ detail
  | .many faults => Fault.manyText (Fault.messages faults)
  | .stage path reason => Fault.stageText path reason.texts

/-- The texts of several failures. -/
def Fault.messages : List Fault → List String
  | [] => []
  | f :: fs => f.message :: Fault.messages fs

/-- The texts of the reasons below a failure, outermost first. -/
def Fault.sources : Fault → List String
  | .expansion _ _ cause => cause.texts
  | .configuration _ _ cause => cause.texts
  | .stage _ reason => reason.texts
  | _ => []

/-- The text of a reason, followed by the texts of the reasons below it. -/
def Reason.texts : Reason → List String
  | .note text => [text]
  | .context text inner => text :: inner.texts
  | .fault f => f.message :: f.sources

/-- The text of a cause, followed by the texts of the reasons below it. -/
def Cause.texts : Cause → List String
  | .bare reason => reason.texts
  | .stage contexts path reason => contexts ++ Fault.stageText path reason.texts :: reason.texts

end

/-- The outermost text of a reason. -/
def Reason.message (r : Reason) : String := r.texts.headD ""

/-- All texts of a cause in one line. -/
def Cause.detail (c : Cause) : String := ": ".intercalate c.texts

/-- All texts of a failure in one line. -/
def Fault.detail (f : Fault) : String := (Cause.fault f).detail

/-! ### Failures of pipeline stages -/

/-- The failure of a pipeline stage. -/
structure StageFault where
  /-- The names of the stages, from the outermost to the one that failed. -/
  path : List String
  /-- Why the innermost stage failed. -/
  cause : Reason

namespace StageFault

/-- The failure of the stage `name`.  When the cause reports a failed inner stage, the two paths
are joined and the contexts in between are dropped. -/
def wrap (name : String) : Cause → StageFault
  | .bare reason => ⟨[name], reason⟩
  | .stage _ path reason => ⟨name :: path, reason⟩

/-- The path in one text. -/
def pathText (e : StageFault) : String := "/".intercalate e.path

/-- The failure as a cause. -/
def toCause (e : StageFault) : Cause := .stage [] e.path e.cause

/-- The failure as a fault. -/
def toFault (e : StageFault) : Fault := .stage e.path e.cause

end StageFault

/-! ### Collected failures -/

/-- The failures that a fault stands for: several for `Fault.many`, else itself. -/
def Fault.parts : Fault → List Fault
  | .many faults => faults
  | f => [f]

/-- The failures that a pass has met so far, none of them an aggregate. -/
structure Faults where
  /-- The failures in the order in which they arose. -/
  list : List Fault := []
deriving Inhabited

namespace Faults

/-- Adds a failure; an aggregate adds its parts. -/
def push (fs : Faults) (f : Fault) : Faults := ⟨fs.list ++ f.parts⟩

/-- Adds the failure of a result, if it is one. -/
def pushResult {α : Type} (fs : Faults) : Except Fault α → Faults
  | .ok _ => fs
  | .error f => fs.push f

/-- Adds several failures in turn. -/
def extend (fs : Faults) (l : List Fault) : Faults := l.foldl push fs

/-- The text of the collection. -/
def message (fs : Faults) : String := Fault.manyText (Fault.messages fs.list)

/-- Success if nothing was collected, the failure itself if there is one, else the aggregate. -/
def result (fs : Faults) : Except Fault Unit :=
  match fs.list with
  | [] => .ok ()
  | [f] => .error f
  | l => .error (.many l)

/-- A pass succeeds if and only if it has met no failure. -/
theorem result_eq_ok_iff {fs : Faults} : fs.result = .ok () ↔ fs.list = [] := by
  rw [result]
  split
  case h_1 h => simp [h]
  case h_2 h => simp [h]
  case h_3 hnil _ =>
      constructor
      · intro h
        cases h
      · intro h
        exact absurd h hnil

theorem result_of_two_le {fs : Faults} (h : 2 ≤ fs.list.length) :
    fs.result = .error (.many fs.list) := by
  rw [result]
  split
  case h_1 hnil => simp [hnil] at h
  case h_2 hone => simp [hone] at h
  case h_3 => rfl

end Faults

end Groundwork
