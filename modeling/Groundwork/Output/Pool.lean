/-
Writing files with several workers.

The parent puts all files into a queue, starts the workers and then waits for as many outcomes as
there are files.  Each worker takes a file, writes it, hands the outcome to the parent and goes for
the next file; it leaves once the queue is empty.  Parent and workers share nothing but two
channels, and go on in any order.

* `Writer` — a way to write files;
* `Worker`, `Parent`, `Pool` — the states of a worker, of the parent and of the whole pool;
* `Move`, `Pool.step` — what can happen next, and what it changes;
* `Pool.run` — a run in which the first move that can be made is made;
* `writeFiles` — writes files below a destination.
-/
import Groundwork.Output.Channel
import Groundwork.Output.File

set_option autoImplicit false

namespace Groundwork

/-- A way to write files.  A write may look at what earlier ones have left behind, which may be
anything that its outcome depends on. -/
structure Writer (σ : Type) where
  /-- What is left behind after a file was written, and whether that went well. -/
  write : OutputFile → σ → σ × Except Fault Unit
  /-- A file fails for a single reason. -/
  parts_eq : ∀ {f : OutputFile} {s : σ} {e : Fault}, (write f s).2 = .error e → e.parts = [e]

/-- Files are written below a destination. -/
def OutputFile.writer (dest : FilePath) : Writer Disk where
  write f d := f.writeTo dest d
  parts_eq h := parts_of_writeTo h

/-- What a worker is doing. -/
inductive Worker where
  /-- It goes for a file. -/
  | ready
  /-- It writes a file. -/
  | writing (file : OutputFile)
  /-- It has an outcome to hand over. -/
  | reporting (outcome : Except Fault Unit)
  /-- It has left. -/
  | gone

namespace Worker

/-- Whether the worker has left. -/
def hasLeft : Worker → Bool
  | gone => true
  | _ => false

/-- The number of moves that the worker makes if it gets no other file. -/
def left : Worker → Nat
  | ready => 1
  | writing _ => 3
  | reporting _ => 2
  | gone => 0

/-- The same for several workers. -/
def leftAll : List Worker → Nat
  | [] => 0
  | a :: l => a.left + leftAll l

end Worker

/-- What the parent is doing. -/
inductive Parent where
  /-- It puts files into the queue. -/
  | queueing (files : List OutputFile)
  /-- It starts so many more workers. -/
  | hiring (number : Nat)
  /-- It waits for so many more outcomes. -/
  | draining (number : Nat)
  /-- It waits for the workers to leave. -/
  | joining
  /-- It has returned. -/
  | done

/-- The state of a pool. -/
structure Pool (σ : Type) where
  /-- The queue of files. -/
  jobs : Channel OutputFile
  /-- The outcomes on their way to the parent. -/
  outcomes : Channel (Except Fault Unit) := {}
  /-- The workers that were started. -/
  workers : List Worker := []
  /-- The parent. -/
  parent : Parent
  /-- The number of workers to start. -/
  team : Nat
  /-- The number of outcomes to wait for. -/
  total : Nat
  /-- The failures that the parent has met. -/
  faults : Faults := {}
  /-- What the files written so far have left behind. -/
  state : σ

/-- What can happen in a pool. -/
inductive Move where
  /-- The parent acts. -/
  | lead
  /-- The worker with this number acts. -/
  | work (number : Nat)

namespace Pool

variable {σ : Type}

/-- The pool before anything happens: there will be at least one worker, and no more workers than
files. -/
def start (files : List OutputFile) (limit : Nat) (state : σ) : Pool σ where
  jobs := { capacity := some files.length }
  parent := .queueing files
  team := min (max limit 1) files.length
  total := files.length
  state

/-- The pool after a worker has left, which closes its ends of both channels. -/
def dismiss (p : Pool σ) (number : Nat) : Pool σ :=
  { p with
    jobs := p.jobs.dropReceiver
    outcomes := p.outcomes.dropSender
    workers := p.workers.set number .gone }

/-- The pool after a worker acts, unless it has to wait. -/
def work (w : Writer σ) (p : Pool σ) (number : Nat) : Option (Pool σ) :=
  match p.workers[number]? with
  | none | some .gone => none
  | some .ready =>
    match p.jobs.receive with
    | .done (f, jobs) => some { p with jobs, workers := p.workers.set number (.writing f) }
    | .closed => some (p.dismiss number)
    | .waits => none
  | some (.writing f) =>
    let (state, outcome) := w.write f p.state
    some { p with state, workers := p.workers.set number (.reporting outcome) }
  | some (.reporting outcome) =>
    match p.outcomes.send outcome with
    | .done outcomes => some { p with outcomes, workers := p.workers.set number .ready }
    | .closed => some (p.dismiss number)
    | .waits => none

/-- The pool after the parent acts, unless it has to wait.  It keeps an end of either channel until
it returns: the receiver of the outcomes, and a receiver of the queue that it never uses. -/
def lead (p : Pool σ) : Option (Pool σ) :=
  match p.parent with
  | .queueing (f :: rest) =>
    match p.jobs.send f with
    | .done jobs => some { p with jobs, parent := .queueing rest }
    | .closed =>
      some { p with faults := p.faults.push (.output "output job queue closed"), parent := .done }
    | .waits => none
  | .queueing [] => some { p with jobs := p.jobs.dropSender, parent := .hiring p.team }
  | .hiring (n + 1) =>
    some { p with
      jobs := p.jobs.addReceiver
      outcomes := p.outcomes.addSender
      workers := p.workers ++ [.ready]
      parent := .hiring n }
  | .hiring 0 => some { p with outcomes := p.outcomes.dropSender, parent := .draining p.total }
  | .draining (n + 1) =>
    match p.outcomes.receive with
    | .done (outcome, outcomes) =>
      some { p with outcomes, faults := p.faults.pushResult outcome, parent := .draining n }
    | .closed =>
      some { p with
        faults := p.faults.push (.output "output workers exited early")
        parent := .joining }
    | .waits => none
  | .draining 0 => some { p with parent := .joining }
  | .joining => if p.workers.all Worker.hasLeft then some { p with parent := .done } else none
  | .done => none

/-- The pool after a move, if the move can be made. -/
def step (w : Writer σ) (p : Pool σ) : Move → Option (Pool σ)
  | .lead => p.lead
  | .work number => p.work w number

/-- All moves that may come into question. -/
def moves (p : Pool σ) : List Move := .lead :: (List.range p.workers.length).map .work

/-- Makes the first move that can be made, again and again, at most `n` times. -/
def run (w : Writer σ) : Nat → Pool σ → Pool σ
  | 0, p => p
  | n + 1, p =>
    match p.moves.findSome? (p.step w) with
    | none => p
    | some q => run w n q

/-- A number that every move makes smaller.  A file in the queue takes three moves of a worker, and
a worker one move to leave. -/
def left (p : Pool σ) : Nat :=
  3 * p.jobs.items.length + Worker.leftAll p.workers +
    match p.parent with
    | .queueing files => 4 * files.length + 2 * p.team + p.total + 4
    | .hiring n => 2 * n + p.total + 3
    | .draining n => n + 2
    | .joining => 1
    | .done => 0

end Pool

/-- The number of workers where none is given. -/
def defaultWriteLimit : Nat := 4

/-- Writes files below a destination with at most `limit` workers. -/
def writeFiles (files : List OutputFile) (dest : FilePath) (limit : Nat) (d : Disk) :
    Disk × Except Fault Unit :=
  if files.isEmpty then (d, .ok ())
  else
    let p := Pool.start files limit d
    let p := p.run (OutputFile.writer dest) p.left
    (p.state, p.faults.result)

end Groundwork
