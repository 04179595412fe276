/-
Writing files one call at a time.

Writing a file takes many calls to the system, and between two of them other workers may make
theirs.  A phase says how far a worker has got with its file and what it remembers: the directories
that are still to be made, the failure of the call before, or the file that it has opened, with the
offset at which that is read and written next.

* `Disk.content`, `Disk.overwrite` — reading and writing an open file;
* `Phase` — how far a worker has got with a file;
* `OutputFile.firstPhase`, `Phase.next` — the phase before the first call, and the next call;
* `Workshop` — a pool whose workers write their files one call at a time;
* `Workshop.Turn`, `Workshop.step`, `Workshop.after?` — what can happen next, and what it changes.
-/
import Groundwork.Output.Pool

set_option autoImplicit false

namespace Groundwork

/-! ### Open files -/

/-- Bytes that are put over others from an offset on.  A gap before the offset is filled with
zeros. -/
def spliced (old : List UInt8) (offset : Nat) (new : List UInt8) : List UInt8 :=
  old.take offset ++ List.replicate (offset - old.length) 0 ++ new ++
    old.drop (offset + new.length)

/-- What is put at the end of something is put after it. -/
theorem spliced_length (old new : List UInt8) : spliced old old.length new = old ++ new := by
  rw [spliced, List.take_length, Nat.sub_self, List.drop_eq_nil_of_le (Nat.le_add_right _ _),
    List.append_nil, List.replicate_zero, List.append_nil]

namespace Disk

/-- The content of the file at a place. -/
def content (d : Disk) (p : Place) : ByteArray :=
  match d.entry? p with
  | some (.file content) => content
  | _ => .empty

/-- Writes into the file at a place, from an offset on. -/
def overwrite (d : Disk) (p : Place) (offset : Nat) (new : List UInt8) : Disk :=
  d.put p (.file ⟨(spliced (d.content p).data.toList offset new).toArray⟩)

end Disk

/-! ### Phases -/

/-- How far a worker has got with a file. -/
inductive Phase where
  /-- It makes a directory, whose components are given backwards.  The directories below it, down
  to the one that the file is in, come later.  It may be that it was asked for before, when there
  was no directory for it. -/
  | making (path later : List PathStep) (again : Bool)
  /-- It could not make a directory and looks whether there is one. -/
  | checking (path later : List PathStep) (reason : DiskFault)
  /-- It opens the file for reading and writing. -/
  | opening
  /-- It has opened a file and asks whether that may be replaced. -/
  | asking (place : Place)
  /-- It makes the file, of which there was none. -/
  | creating
  /-- It cuts the open file off at its start. -/
  | emptying (place : Place) (offset : Nat)
  /-- It goes back to the start of the open file. -/
  | rewinding (place : Place) (offset : Nat)
  /-- It writes what is left of the body. -/
  | filling (place : Place) (offset : Nat) (left : List UInt8)
  /-- It has an outcome. -/
  | finished (outcome : Except Fault Unit)

namespace OutputFile

variable (f : OutputFile) (dest : FilePath)

/-- The outcome once the whole body is written. -/
def conclusion : Except Fault Unit :=
  match f.failure with
  | none => .ok ()
  | some reason => .error (fault (dest.join f.path) reason)

/-- The outcome where the disk refuses a call. -/
def refusal (e : DiskFault) : Except Fault Unit := .error (fault (dest.join f.path) e.message)

/-- The phase before the first call. -/
def firstPhase : Phase :=
  match (dest.join f.path).parent? with
  | some parent => .making parent.components.reverse [] false
  | none => .opening

end OutputFile

namespace Phase

/-- The phase after a directory is there. -/
def onward (path : List PathStep) : List PathStep → Phase
  | [] => .opening
  | step :: later => .making (step :: path) later true

/-- The disk and the phase after the next call.  The number is what the call leaves open: where the
test of an open file leaves the offset, or how many bytes are written at once. -/
def next (f : OutputFile) (dest : FilePath) (n : Nat) (d : Disk) : Phase → Disk × Phase
  | .making [] later _ => (d, onward [] later)
  | .making (last :: front) later again =>
    match d.makeDirectory (.ofComponents (last :: front).reverse) with
    | .ok d => (d, onward (last :: front) later)
    | .error e =>
      (d, if e = .notFound && !again then .making front (last :: later) false
        else .checking (last :: front) later e)
  | .checking path later e =>
    (d, if d.isDirectory (.ofComponents path.reverse) then onward path later
      else .finished (f.refusal dest e))
  | .opening =>
    match d.find (dest.join f.path) with
    | .ok (place, _) => (d, .asking place)
    | .error .notFound => (d, .creating)
    | .error e => (d, .finished (f.refusal dest e))
  | .asking place =>
    (d, if f.mayReplace (d.content place) then .emptying place n else .finished (.ok ()))
  | .creating =>
    match d.create (dest.join f.path) with
    | .ok (place, d) => (d, .filling place 0 f.body.data.toList)
    | .error e => (d, .finished (f.refusal dest e))
  | .emptying place offset => (d.put place (.file .empty), .rewinding place offset)
  | .rewinding place _ => (d, .filling place 0 f.body.data.toList)
  | .filling _ _ [] => (d, .finished (f.conclusion dest))
  | .filling place offset (b :: left) =>
    let chunk := (b :: left).take (n + 1)
    (d.overwrite place offset chunk,
      .filling place (offset + chunk.length) ((b :: left).drop (n + 1)))
  | .finished outcome => (d, .finished outcome)

section Next

variable {f : OutputFile} {dest : FilePath} {n : Nat} {d : Disk}

theorem next_making {last : PathStep} {front later : List PathStep} {again : Bool} :
    next f dest n d (.making (last :: front) later again) =
      match d.makeDirectory (.ofComponents (last :: front).reverse) with
      | .ok d => (d, onward (last :: front) later)
      | .error e =>
        (d, if e = .notFound && !again then .making front (last :: later) false
          else .checking (last :: front) later e) := rfl

theorem next_checking {path later : List PathStep} {e : DiskFault} :
    next f dest n d (.checking path later e) =
      (d, if d.isDirectory (.ofComponents path.reverse) then onward path later
        else .finished (f.refusal dest e)) := rfl

theorem next_opening :
    next f dest n d .opening =
      match d.find (dest.join f.path) with
      | .ok (place, _) => (d, .asking place)
      | .error .notFound => (d, .creating)
      | .error e => (d, .finished (f.refusal dest e)) := rfl

/-- A file that is there and cannot be opened is given up. -/
theorem next_opening_of_error {e : DiskFault} (hfind : d.find (dest.join f.path) = .error e)
    (he : e ≠ .notFound) :
    next f dest n d .opening = (d, .finished (f.refusal dest e)) := by
  rw [next_opening, hfind]
  cases e with
  | notFound => exact absurd rfl he
  | _ => rfl

theorem next_asking {place : Place} :
    next f dest n d (.asking place) =
      (d, if f.mayReplace (d.content place) then .emptying place n else .finished (.ok ())) := rfl

theorem next_creating :
    next f dest n d .creating =
      match d.create (dest.join f.path) with
      | .ok (place, d) => (d, .filling place 0 f.body.data.toList)
      | .error e => (d, .finished (f.refusal dest e)) := rfl

theorem next_filling {place : Place} {offset : Nat} {b : UInt8} {left : List UInt8} :
    next f dest n d (.filling place offset (b :: left)) =
      (d.overwrite place offset ((b :: left).take (n + 1)),
        .filling place (offset + ((b :: left).take (n + 1)).length)
          ((b :: left).drop (n + 1))) := rfl

end Next

end Phase

/-! ### Workshops -/

/-- A pool whose workers write their files one call at a time. -/
structure Workshop where
  /-- The pool; what the files written so far have left behind is the disk. -/
  pool : Pool Disk
  /-- How far the worker with a number has got with its file. -/
  phases : Nat → Phase

namespace Workshop

/-- What can happen in a workshop. -/
inductive Turn where
  /-- The parent acts. -/
  | lead
  /-- The worker with this number acts; the second number is what a call leaves open. -/
  | work (number choice : Nat)

/-- The workshop before anything happens. -/
def start (files : List OutputFile) (limit : Nat) (d : Disk) : Workshop where
  pool := .start files limit d
  phases _ := .opening

/-- The workshop after a worker has got to another phase. -/
def setPhase (w : Workshop) (number : Nat) (phase : Phase) : Workshop :=
  { w with phases := fun i => if i = number then phase else w.phases i }

/-- The workshop after the worker has made the next call for its file, or has taken note of the
outcome. -/
def proceed (dest : FilePath) (w : Workshop) (number choice : Nat) (f : OutputFile) : Workshop :=
  match w.phases number with
  | .finished outcome =>
    { w with pool.workers := w.pool.workers.set number (.reporting outcome) }
  | phase =>
    let (state, phase) := phase.next f dest choice w.pool.state
    { w with pool.state := state }.setPhase number phase

/-- The workshop after a turn, if that is possible.  Workers that do not write act as in any
pool. -/
def step (dest : FilePath) (w : Workshop) : Turn → Option Workshop
  | .lead => w.pool.lead.map fun pool => { w with pool }
  | .work number choice =>
    match w.pool.workers[number]? with
    | some (.writing f) => some (w.proceed dest number choice f)
    | _ =>
      (w.pool.work (OutputFile.writer dest) number).map fun (pool : Pool Disk) =>
        match pool.workers[number]? with
        | some (.writing f) => { w with pool }.setPhase number (f.firstPhase dest)
        | _ => { w with pool }

theorem step_work {dest : FilePath} {w : Workshop} {number choice : Nat} :
    w.step dest (.work number choice) =
      match w.pool.workers[number]? with
      | some (.writing f) => some (w.proceed dest number choice f)
      | _ =>
        (w.pool.work (OutputFile.writer dest) number).map fun (pool : Pool Disk) =>
          match pool.workers[number]? with
          | some (.writing f) => { w with pool }.setPhase number (f.firstPhase dest)
          | _ => { w with pool } := rfl

end Workshop

end Groundwork
