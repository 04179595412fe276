/-
Pipelines.

A pipeline runs named stages one after another on a shared state, and a stage may consist of
stages.  The first failure ends the run; it names the stages that lead to the one that failed, and
what the stages did before stays done.

* `Stage` — a stage; `Pipeline` — stages, some of which may be left open;
* `Stage.run`, `Pipeline.run` — running them;
* `Pipeline.names` — the names of the stages;
* `Stage.edgeExpansion` — the stage that expands every dependency of a site and configures it.
-/
import Groundwork.Knowledge.Expansion

set_option autoImplicit false

namespace Groundwork

/-- A stage that works on a state of type `σ`. -/
inductive Stage (σ : Type) where
  /-- A stage that does something itself. -/
  | single (name : String) (act : σ → σ × Except Cause Unit)
  /-- A stage that consists of stages. -/
  | group (name : String) (stages : List (Stage σ))

namespace Stage

variable {σ : Type}

instance : Inhabited (Stage σ) := ⟨.group "" []⟩

/-- The name of a stage. -/
def name : Stage σ → String
  | .single n _ => n
  | .group n _ => n

mutual

/-- Runs a stage.  The failure of an inner stage is reported under its name. -/
def run : Stage σ → σ → σ × Except Cause Unit
  | .single _ act, s => act s
  | .group _ stages, s => runAll stages s

/-- Runs the stages of a group until one fails. -/
def runAll : List (Stage σ) → σ → σ × Except Cause Unit
  | [], s => (s, .ok ())
  | stage :: rest, s =>
    match stage.run s with
    | (s, .ok ()) => runAll rest s
    | (s, .error cause) => (s, .error (StageFault.wrap stage.name cause).toCause)

end

end Stage

/-- The stages of a pipeline; an open place holds none. -/
abbrev Pipeline (σ : Type) := List (Option (Stage σ))

namespace Pipeline

variable {σ : Type}

/-- The names of the stages. -/
def names (p : Pipeline σ) : List String := p.filterMap fun stage => stage.map Stage.name

/-- Runs stages until one fails. -/
def run : Pipeline σ → σ → σ × Except StageFault Unit
  | [], s => (s, .ok ())
  | none :: rest, s => run rest s
  | some stage :: rest, s =>
    match stage.run s with
    | (s, .ok ()) => run rest s
    | (s, .error cause) => (s, .error (StageFault.wrap stage.name cause))

end Pipeline

/-! ### Expansion as a stage -/

/-- The stage that expands and configures all dependencies of a site by a knowledge base.  Edges
without data of their own belong to the application `app`. -/
def Stage.edgeExpansion (kb : KnowledgeBase) (app : String) : Stage Site :=
  .single "edge_expansion" fun s =>
    match kb.expand { app } s with
    | (s, .error f) => (s, .error (.fault f))
    | (s, .ok ()) =>
      let (s, result) := kb.configure { app } s
      (s, result.mapError .fault)

end Groundwork
