/-
The moves of a pool.

What a move does depends on the thread that makes it and on what this thread is at.  All cases are
listed once, together with what an onlooker sees: a file that was written, or an outcome that the
parent has received.  Every move brings the pool nearer to its end, so that runs are bounded, and a
run that always makes the first possible move ends where no move can be made.

Main definitions:

* `Groundwork.Pool.Event`, `Groundwork.Pool.event?` — what an onlooker sees of a move;
* `Groundwork.Pool.Step` — the moves, one case for each thing that a thread can be at;
* `Groundwork.Pool.Run` — moves in any order, with what was seen of them.

Main results:

* `Groundwork.Pool.Step.of_step` — there are no other moves;
* `Groundwork.Pool.Step.left_lt` — a move brings the pool nearer to its end;
* `Groundwork.Pool.Run.length_add_left_le` — the length of a run is bounded;
* `Groundwork.Pool.exists_run` — the run of the program comes to an end.
-/
import Groundwork.Output.Pool
import Mathlib.Data.Nat.Notation

set_option relaxedAutoImplicit false
set_option autoImplicit false

namespace Groundwork

namespace Pool

variable {σ : Type} {w : Writer σ}

/-! ### Moves -/

/-- What an onlooker sees of a pool. -/
inductive Event where
  /-- A file was written. -/
  | wrote (file : OutputFile) (outcome : Except Fault Unit)
  /-- The parent has received an outcome. -/
  | received (outcome : Except Fault Unit)

/-- What is seen of a move. -/
def event? (w : Writer σ) (p : Pool σ) : Move → Option Event
  | .work number =>
    match p.workers[number]? with
    | some (.writing f) => some (.wrote f (w.write f p.state).2)
    | _ => none
  | .lead =>
    match p.parent, p.outcomes.receive with
    | .draining (_ + 1), .done (outcome, _) => some (.received outcome)
    | _, _ => none

/-- The moves of a pool. -/
inductive Step (w : Writer σ) (p : Pool σ) : Move → Option Event → Pool σ → Prop
  /-- The parent puts a file into the queue. -/
  | queue {f : OutputFile} {rest : List OutputFile} {jobs : Channel OutputFile}
      (hparent : p.parent = .queueing (f :: rest)) (hsend : p.jobs.send f = .done jobs) :
      Step w p .lead none { p with jobs, parent := .queueing rest }
  /-- The parent finds the queue closed. -/
  | refuse {f : OutputFile} {rest : List OutputFile}
      (hparent : p.parent = .queueing (f :: rest)) (hsend : p.jobs.send f = .closed) :
      Step w p .lead none
        { p with faults := p.faults.push (.output "output job queue closed"), parent := .done }
  /-- The parent has put all files into the queue. -/
  | stock (hparent : p.parent = .queueing []) :
      Step w p .lead none { p with jobs := p.jobs.dropSender, parent := .hiring p.team }
  /-- The parent starts a worker. -/
  | hire {n : ℕ} (hparent : p.parent = .hiring (n + 1)) :
      Step w p .lead none
        { p with
          jobs := p.jobs.addReceiver
          outcomes := p.outcomes.addSender
          workers := p.workers ++ [.ready]
          parent := .hiring n }
  /-- The parent has started all workers. -/
  | staff (hparent : p.parent = .hiring 0) :
      Step w p .lead none
        { p with outcomes := p.outcomes.dropSender, parent := .draining p.total }
  /-- The parent receives an outcome. -/
  | drain {n : ℕ} {outcome : Except Fault Unit} {outcomes : Channel (Except Fault Unit)}
      (hparent : p.parent = .draining (n + 1))
      (hreceive : p.outcomes.receive = .done (outcome, outcomes)) :
      Step w p .lead (some (.received outcome))
        { p with outcomes, faults := p.faults.pushResult outcome, parent := .draining n }
  /-- The parent learns that there will be no more outcomes. -/
  | despair {n : ℕ} (hparent : p.parent = .draining (n + 1))
      (hreceive : p.outcomes.receive = .closed) :
      Step w p .lead none
        { p with
          faults := p.faults.push (.output "output workers exited early")
          parent := .joining }
  /-- The parent has received all outcomes. -/
  | settle (hparent : p.parent = .draining 0) : Step w p .lead none { p with parent := .joining }
  /-- The parent returns. -/
  | finish (hparent : p.parent = .joining) (hleft : p.workers.all Worker.hasLeft = true) :
      Step w p .lead none { p with parent := .done }
  /-- A worker takes a file. -/
  | take {i : ℕ} {f : OutputFile} {jobs : Channel OutputFile}
      (hworker : p.workers[i]? = some .ready) (hreceive : p.jobs.receive = .done (f, jobs)) :
      Step w p (.work i) none { p with jobs, workers := p.workers.set i (.writing f) }
  /-- A worker finds that there are no more files. -/
  | leave {i : ℕ} (hworker : p.workers[i]? = some .ready) (hreceive : p.jobs.receive = .closed) :
      Step w p (.work i) none (p.dismiss i)
  /-- A worker writes a file. -/
  | write {i : ℕ} {f : OutputFile} (hworker : p.workers[i]? = some (.writing f)) :
      Step w p (.work i) (some (.wrote f (w.write f p.state).2))
        { p with
          state := (w.write f p.state).1
          workers := p.workers.set i (.reporting (w.write f p.state).2) }
  /-- A worker hands over an outcome. -/
  | report {i : ℕ} {outcome : Except Fault Unit} {outcomes : Channel (Except Fault Unit)}
      (hworker : p.workers[i]? = some (.reporting outcome))
      (hsend : p.outcomes.send outcome = .done outcomes) :
      Step w p (.work i) none { p with outcomes, workers := p.workers.set i .ready }
  /-- A worker finds that the parent has returned. -/
  | quit {i : ℕ} {outcome : Except Fault Unit} (hworker : p.workers[i]? = some (.reporting outcome))
      (hsend : p.outcomes.send outcome = .closed) :
      Step w p (.work i) none (p.dismiss i)

theorem Step.of_lead {p q : Pool σ} (h : p.lead = some q) :
    Step w p .lead (p.event? w .lead) q := by
  unfold lead at h
  unfold event?
  cases hparent : p.parent with
  | queueing files =>
      cases files with
      | nil =>
          simp only [hparent, Option.some.injEq] at h ⊢
          subst h
          exact .stock hparent
      | cons f rest =>
          simp only [hparent] at h ⊢
          split at h
          case h_1 hsend =>
              cases h
              exact .queue hparent hsend
          case h_2 hsend =>
              cases h
              exact .refuse hparent hsend
          case h_3 => cases h
  | hiring n =>
      cases n with
      | zero =>
          simp only [hparent, Option.some.injEq] at h ⊢
          subst h
          exact .staff hparent
      | succ n =>
          simp only [hparent, Option.some.injEq] at h ⊢
          subst h
          exact .hire hparent
  | draining n =>
      cases n with
      | zero =>
          simp only [hparent, Option.some.injEq] at h ⊢
          subst h
          exact .settle hparent
      | succ n =>
          simp only [hparent] at h ⊢
          split at h
          case h_1 hreceive =>
              cases h
              rw [hreceive]
              exact .drain hparent hreceive
          case h_2 hreceive =>
              cases h
              rw [hreceive]
              exact .despair hparent hreceive
          case h_3 => cases h
  | joining =>
      simp only [hparent, Option.ite_none_right_eq_some, Option.some.injEq] at h ⊢
      obtain ⟨hleft, rfl⟩ := h
      exact .finish hparent hleft
  | done =>
      simp only [hparent] at h
      cases h

theorem Step.of_work {p q : Pool σ} {i : ℕ} (h : p.work w i = some q) :
    Step w p (.work i) (p.event? w (.work i)) q := by
  unfold work at h
  unfold event?
  cases hworker : p.workers[i]? with
  | none =>
      simp only [hworker] at h
      cases h
  | some a =>
      cases a with
      | ready =>
          simp only [hworker] at h ⊢
          split at h
          case h_1 hreceive =>
              cases h
              exact .take hworker hreceive
          case h_2 hreceive =>
              cases h
              exact .leave hworker hreceive
          case h_3 => cases h
      | writing f =>
          simp only [hworker, Option.some.injEq] at h ⊢
          subst h
          exact .write hworker
      | reporting outcome =>
          simp only [hworker] at h ⊢
          split at h
          case h_1 hsend =>
              cases h
              exact .report hworker hsend
          case h_2 hsend =>
              cases h
              exact .quit hworker hsend
          case h_3 => cases h
      | gone =>
          simp only [hworker] at h
          cases h

/-- There are no other moves. -/
theorem Step.of_step {p q : Pool σ} {m : Move} (h : p.step w m = some q) :
    Step w p m (p.event? w m) q := by
  cases m with
  | lead => exact Step.of_lead h
  | work i => exact Step.of_work h

/-! ### The way to the end -/

theorem leftAll_append (l m : List Worker) :
    Worker.leftAll (l ++ m) = Worker.leftAll l + Worker.leftAll m := by
  induction l with
  | nil => exact (Nat.zero_add _).symm
  | cons a l ih =>
      simp only [List.cons_append, Worker.leftAll, ih]
      omega

/-- What a worker is replaced by changes the number of moves left by the difference. -/
theorem leftAll_set {l : List Worker} {i : ℕ} {a : Worker} (h : l[i]? = some a) (b : Worker) :
    Worker.leftAll (l.set i b) + a.left = Worker.leftAll l + b.left := by
  induction l generalizing i with
  | nil => cases h
  | cons c l ih =>
      cases i with
      | zero =>
          cases h
          simp only [List.set_cons_zero, Worker.leftAll]
          omega
      | succ i =>
          have hrest := ih h
          simp only [List.set_cons_succ, Worker.leftAll]
          omega

/-- **A move brings the pool nearer to its end.** -/
theorem Step.left_lt {p q : Pool σ} {m : Move} {e : Option Event} (h : Step w p m e q) :
    q.left < p.left := by
  unfold left
  cases h with
  | queue hparent hsend =>
      obtain ⟨-, -, rfl⟩ := Channel.send_eq_done_iff.1 hsend
      simp only [hparent, List.length_append, List.length_cons, List.length_nil]
      omega
  | refuse hparent hsend =>
      simp only [hparent]
      omega
  | stock hparent =>
      simp only [hparent, Channel.dropSender, List.length_nil]
      omega
  | hire hparent =>
      simp only [hparent, Channel.addReceiver, leftAll_append, Worker.leftAll, Worker.left]
      omega
  | staff hparent =>
      simp only [hparent]
      omega
  | drain hparent hreceive =>
      simp only [hparent]
      omega
  | despair hparent hreceive =>
      simp only [hparent]
      omega
  | settle hparent =>
      simp only [hparent]
      omega
  | finish hparent hleft =>
      simp only [hparent]
      omega
  | @take i f jobs hworker hreceive =>
      obtain ⟨rest, hitems, rfl⟩ := Channel.receive_eq_done_iff.1 hreceive
      have hsum := leftAll_set hworker (.writing f)
      simp only [hitems, List.length_cons, Worker.left] at hsum ⊢
      omega
  | leave hworker hreceive =>
      have hsum := leftAll_set hworker .gone
      simp only [dismiss, Channel.dropReceiver, Worker.left] at hsum ⊢
      omega
  | @write i f hworker =>
      have hsum := leftAll_set hworker (.reporting (w.write f p.state).2)
      simp only [Worker.left] at hsum ⊢
      omega
  | report hworker hsend =>
      have hsum := leftAll_set hworker .ready
      simp only [Worker.left] at hsum ⊢
      omega
  | quit hworker hsend =>
      have hsum := leftAll_set hworker .gone
      simp only [dismiss, Channel.dropReceiver, Worker.left] at hsum ⊢
      omega

/-! ### Runs -/

/-- Moves one after another, in any order, with what was seen of them. -/
inductive Run (w : Writer σ) (p : Pool σ) : List Move → List Event → Pool σ → Prop
  /-- Nothing has happened yet. -/
  | nil : Run w p [] [] p
  /-- One more move. -/
  | snoc {moves : List Move} {events : List Event} {q r : Pool σ} (m : Move) :
      Run w p moves events q → q.step w m = some r →
      Run w p (moves ++ [m]) (events ++ (q.event? w m).toList) r

/-- No move can be made. -/
def Halted (w : Writer σ) (p : Pool σ) : Prop := ∀ m, p.step w m = none

/-- The length of a run is bounded. -/
theorem Run.length_add_left_le {p q : Pool σ} {moves : List Move} {events : List Event}
    (h : Run w p moves events q) : moves.length + q.left ≤ p.left := by
  induction h with
  | nil => simp
  | snoc m _ hstep ih =>
      have hlt := (Step.of_step hstep).left_lt
      rw [List.length_append, List.length_singleton]
      omega

/-- No move can be made if none of those that come into question can. -/
theorem halted_of_findSome? {p : Pool σ} (h : p.moves.findSome? (p.step w) = none) :
    p.Halted w := by
  rw [List.findSome?_eq_none_iff] at h
  intro m
  cases m with
  | lead => exact h .lead List.mem_cons_self
  | work i =>
      by_cases hi : i < p.workers.length
      · exact h (.work i) (List.mem_cons_of_mem _ (List.mem_map_of_mem (List.mem_range.2 hi)))
      · change p.work w i = none
        rw [work, List.getElem?_eq_none (Nat.le_of_not_lt hi)]

/-- **The run of the program comes to an end** if it may be as long as any run. -/
theorem exists_run (w : Writer σ) {n : ℕ} {p q : Pool σ} {moves : List Move} {events : List Event}
    (h : Run w p moves events q) (hn : q.left ≤ n) :
    ∃ moves' events', Run w p moves' events' (q.run w n) ∧ (q.run w n).Halted w := by
  induction n generalizing q moves events with
  | zero =>
      refine ⟨moves, events, h, fun m => ?_⟩
      cases hstep : q.step w m with
      | none => exact hstep
      | some r =>
          have hlt := (Step.of_step hstep).left_lt
          omega
  | succ n ih =>
      unfold run
      split
      case h_1 hnone => exact ⟨moves, events, h, halted_of_findSome? hnone⟩
      case h_2 r hsome =>
          obtain ⟨m, -, hstep⟩ := List.exists_of_findSome?_eq_some hsome
          have hlt := (Step.of_step hstep).left_lt
          exact ih (h.snoc m hstep) (by omega)

end Pool

end Groundwork
