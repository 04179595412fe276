/-
The accounts of a pool.

Parent and workers go on in any order, and still nothing is lost.  Two accounts show this, and every
move keeps them.  One is of the ends of the channels, which tell who is still there: a channel
closes only when nobody needs it any more.  The other is of the files and the outcomes, each of
which is in exactly one place.  Together they say how many outcomes the parent can still count on,
which is how many it waits for.

Main definitions:

* `Groundwork.Pool.written`, `Groundwork.Pool.received` — what was seen of the files and of the
  parent;
* `Groundwork.Pool.Wired` — the ends of the channels, and the threads to which they belong;
* `Groundwork.Pool.Accounted` — the places of the files and of the outcomes.

Main results:

* `Groundwork.Pool.Wired.step`, `Groundwork.Pool.Accounted.step` — every move keeps the accounts;
* `Groundwork.Pool.Accounted.awaited_eq` — how many outcomes the parent waits for;
* `Groundwork.Pool.Accounted.receive_ne_closed` — the workers do not leave too early.
-/
import Groundwork.Proofs.Output.Moves
import Mathlib.Algebra.Order.Group.Multiset
import Mathlib.Data.Multiset.Filter
import Mathlib.Tactic.Abel

set_option relaxedAutoImplicit false
set_option autoImplicit false

namespace Groundwork

/-- What an entry of a list is replaced by leaves the others alone. -/
theorem exists_perm_set {α : Type} {l : List α} {i : ℕ} {a : α} (h : l[i]? = some a) :
    ∃ rest, l.Perm (a :: rest) ∧ ∀ b, (l.set i b).Perm (b :: rest) := by
  obtain ⟨hi, rfl⟩ := List.getElem?_eq_some_iff.1 h
  exact ⟨l.eraseIdx i, (List.getElem_cons_eraseIdx_perm hi).symm,
    fun b => List.set_perm_cons_eraseIdx hi b⟩

/-! ### What threads hold -/

/-- The file that a worker writes. -/
def Worker.file? : Worker → Option OutputFile
  | writing f => some f
  | _ => none

/-- The outcome that a worker has to hand over. -/
def Worker.outcome? : Worker → Option (Except Fault Unit)
  | reporting outcome => some outcome
  | _ => none

/-- Whether a worker is there. -/
def Worker.isPresent (a : Worker) : Bool := !a.hasLeft

namespace Parent

/-- The files that are not in the queue yet. -/
def unqueued : Parent → List OutputFile
  | queueing files => files
  | _ => []

/-- The senders of the queue that the parent holds. -/
def jobSenders : Parent → ℕ
  | queueing _ => 1
  | _ => 0

/-- The senders of the outcomes that the parent holds. -/
def outcomeSenders : Parent → ℕ
  | queueing _ => 1
  | hiring _ => 1
  | _ => 0

/-- The workers that are still to be started. -/
def missing (team : ℕ) : Parent → ℕ
  | queueing _ => team
  | hiring n => n
  | _ => 0

/-- The outcomes that are still to be received. -/
def awaited (total : ℕ) : Parent → ℕ
  | queueing _ => total
  | hiring _ => total
  | draining n => n
  | _ => 0

end Parent

namespace Pool

variable {σ : Type} {w : Writer σ} {p q : Pool σ} {m : Move} {e : Option Event}

/-- The files that are being written. -/
def writing (p : Pool σ) : Multiset OutputFile :=
  (p.workers : Multiset Worker).filterMap Worker.file?

/-- The outcomes that workers have to hand over. -/
def unreported (p : Pool σ) : Multiset (Except Fault Unit) :=
  (p.workers : Multiset Worker).filterMap Worker.outcome?

/-- The number of workers that are there. -/
def present (p : Pool σ) : ℕ := p.workers.countP Worker.isPresent

/-- The files written, with their outcomes. -/
def written (events : List Event) : List (OutputFile × Except Fault Unit) :=
  events.filterMap fun
    | .wrote f outcome => some (f, outcome)
    | .received _ => none

/-- The outcomes that the parent has received. -/
def received (events : List Event) : List (Except Fault Unit) :=
  events.filterMap fun
    | .wrote _ _ => none
    | .received outcome => some outcome

/-- The failures among outcomes. -/
def failures (outcomes : List (Except Fault Unit)) : List Fault :=
  outcomes.filterMap fun
    | .ok () => none
    | .error e => some e

theorem failures_eq_nil_iff {outcomes : List (Except Fault Unit)} :
    failures outcomes = [] ↔ ∀ outcome ∈ outcomes, outcome = .ok () := by
  rw [failures, List.filterMap_eq_nil_iff]
  refine forall₂_congr fun outcome _ => ?_
  cases outcome <;> simp

/-- Failures for single reasons are collected as they are. -/
theorem list_foldl_pushResult {outcomes : List (Except Fault Unit)}
    (h : ∀ e, .error e ∈ outcomes → e.parts = [e]) (faults : Faults) :
    (outcomes.foldl Faults.pushResult faults).list = faults.list ++ failures outcomes := by
  induction outcomes generalizing faults with
  | nil => exact (List.append_nil _).symm
  | cons outcome outcomes ih =>
      have hrest := ih fun e he => h e (List.mem_cons_of_mem outcome he)
      cases outcome with
      | ok u => exact hrest faults
      | error e =>
          have hpush : (faults.push e).list = faults.list ++ [e] := by
            rw [Faults.push, h e List.mem_cons_self]
          rw [List.foldl_cons, hrest, Faults.pushResult, hpush, List.append_assoc]
          rfl

/-! ### The ends of the channels -/

/-- The ends of the channels belong to the parent, as long as it needs them, and to the workers that
are there.  A worker leaves only when there are no more files. -/
structure Wired (limit : ℕ) (p : Pool σ) : Prop where
  team_eq : p.team = min (max limit 1) p.total
  job_capacity : p.jobs.capacity = some p.total
  outcome_capacity : p.outcomes.capacity = none
  job_senders : p.jobs.senders = p.parent.jobSenders
  job_receivers : p.jobs.receivers = p.present + 1
  outcome_senders : p.outcomes.senders = p.present + p.parent.outcomeSenders
  outcome_receivers : p.outcomes.receivers = 1
  staffed : p.workers.length + p.parent.missing p.team = p.team
  idle : Worker.gone ∈ p.workers → p.jobs.items = [] ∧ p.parent.jobSenders = 0
  alone : p.parent = .done → p.present = 0

/-- What a worker is replaced by changes the number of those that are there by the difference. -/
theorem countP_set {l : List Worker} {i : ℕ} {a : Worker} (h : l[i]? = some a) (b : Worker) :
    (l.set i b).countP Worker.isPresent + a.isPresent.toNat =
      l.countP Worker.isPresent + b.isPresent.toNat := by
  obtain ⟨rest, hold, hnew⟩ := exists_perm_set h
  rw [hold.countP_eq, (hnew b).countP_eq, List.countP_cons, List.countP_cons]
  cases a.isPresent <;> cases b.isPresent <;> simp

theorem wired_start (files : List OutputFile) (limit : ℕ) (s : σ) :
    (start files limit s).Wired limit where
  team_eq := rfl
  job_capacity := rfl
  outcome_capacity := rfl
  job_senders := rfl
  job_receivers := rfl
  outcome_senders := rfl
  outcome_receivers := rfl
  staffed := Nat.zero_add _
  idle h := absurd h List.not_mem_nil
  alone h := by cases h

/-- The parent does not find the queue closed, of which it holds a receiver itself. -/
theorem Wired.send_job_ne_closed {limit : ℕ} (h : p.Wired limit) (f : OutputFile) :
    p.jobs.send f ≠ .closed := by
  rw [ne_eq, Channel.send_eq_closed_iff, h.job_receivers]
  omega

/-- No worker finds the channel of the outcomes closed. -/
theorem Wired.send_outcome_ne_closed {limit : ℕ} (h : p.Wired limit) (outcome : Except Fault Unit) :
    p.outcomes.send outcome ≠ .closed := by
  rw [ne_eq, Channel.send_eq_closed_iff, h.outcome_receivers]
  omega

/-- A worker that goes on keeps its ends. -/
theorem Wired.replace {limit : ℕ} (h : p.Wired limit) {i : ℕ} {a b : Worker}
    (hworker : p.workers[i]? = some a) (ha : a.isPresent = true) (hb : b.isPresent = true)
    {files : List OutputFile} (hfiles : p.jobs.items = [] → files = [])
    (outcomes : List (Except Fault Unit)) (s : σ) :
    ({ p with
        jobs := { p.jobs with items := files }
        outcomes := { p.outcomes with items := outcomes }
        workers := p.workers.set i b
        state := s } : Pool σ).Wired limit := by
  have hpresent : (p.workers.set i b).countP Worker.isPresent = p.present := by
    have hset := countP_set hworker b
    rw [ha, hb] at hset
    exact Nat.add_right_cancel hset
  exact
    { team_eq := h.team_eq
      job_capacity := h.job_capacity
      outcome_capacity := h.outcome_capacity
      job_senders := h.job_senders
      job_receivers := h.job_receivers.trans (congrArg (· + 1) hpresent.symm)
      outcome_senders := h.outcome_senders.trans (congrArg (· + _) hpresent.symm)
      outcome_receivers := h.outcome_receivers
      staffed := (congrArg (· + _) List.length_set).trans h.staffed
      idle := by
        intro hgone
        rcases List.mem_or_eq_of_mem_set hgone with hgone | rfl
        · exact ⟨hfiles (h.idle hgone).1, (h.idle hgone).2⟩
        · cases hb
      alone := fun hdone => hpresent.trans (h.alone hdone) }

/-- A worker leaves with its ends, once there are no more files. -/
theorem Wired.dismiss {limit : ℕ} (h : p.Wired limit) {i : ℕ}
    (hworker : p.workers[i]? = some .ready) (hreceive : p.jobs.receive = .closed) :
    (p.dismiss i).Wired limit := by
  obtain ⟨hitems, hsenders⟩ := Channel.receive_eq_closed_iff.1 hreceive
  have hpresent : (p.workers.set i .gone).countP Worker.isPresent + 1 = p.present :=
    countP_set hworker .gone
  exact
    { team_eq := h.team_eq
      job_capacity := h.job_capacity
      outcome_capacity := h.outcome_capacity
      job_senders := h.job_senders
      job_receivers := by
        change p.jobs.receivers - 1 = (p.workers.set i .gone).countP Worker.isPresent + 1
        rw [h.job_receivers]
        omega
      outcome_senders := by
        change p.outcomes.senders - 1 =
          (p.workers.set i .gone).countP Worker.isPresent + p.parent.outcomeSenders
        rw [h.outcome_senders]
        omega
      outcome_receivers := h.outcome_receivers
      staffed := (congrArg (· + _) List.length_set).trans h.staffed
      idle := fun _ => ⟨hitems, h.job_senders.symm.trans hsenders⟩
      alone := by
        intro hdone
        have halone := h.alone hdone
        omega }

/-- The parent goes on with the ends that it has. -/
theorem Wired.turn {limit : ℕ} (h : p.Wired limit) {parent : Parent}
    (hjobs : p.parent.jobSenders = parent.jobSenders)
    (houtcomes : p.parent.outcomeSenders = parent.outcomeSenders)
    (hmissing : p.parent.missing p.team = parent.missing p.team)
    (halone : parent = .done → p.present = 0) {files : List OutputFile}
    (hfiles : p.jobs.items = [] → p.parent.jobSenders = 0 → files = [])
    (outcomes : List (Except Fault Unit)) (faults : Faults) :
    ({ p with
        jobs := { p.jobs with items := files }
        outcomes := { p.outcomes with items := outcomes }
        parent
        faults } : Pool σ).Wired limit :=
  { h with
    job_senders := h.job_senders.trans hjobs
    outcome_senders := h.outcome_senders.trans (congrArg (p.present + ·) houtcomes)
    staffed := (congrArg (p.workers.length + ·) hmissing.symm).trans h.staffed
    idle := by
      intro hgone
      obtain ⟨hitems, hsenders⟩ := h.idle hgone
      exact ⟨hfiles hitems hsenders, hjobs.symm.trans hsenders⟩
    alone := halone }

/-- The parent starts a worker, which gets its own ends. -/
theorem Wired.hire {limit : ℕ} (h : p.Wired limit) {n : ℕ} (hparent : p.parent = .hiring (n + 1)) :
    ({ p with
        jobs := p.jobs.addReceiver
        outcomes := p.outcomes.addSender
        workers := p.workers ++ [.ready]
        parent := .hiring n } : Pool σ).Wired limit := by
  have hjobs := h.job_senders
  have houtcomes := h.outcome_senders
  have hstaffed := h.staffed
  have hidle := h.idle
  rw [hparent] at hjobs houtcomes hstaffed hidle
  have hpresent : (p.workers ++ [Worker.ready]).countP Worker.isPresent = p.present + 1 := by
    rw [List.countP_append]
    rfl
  exact { h with
    job_senders := hjobs
    job_receivers := by
      change p.jobs.receivers + 1 = (p.workers ++ [Worker.ready]).countP Worker.isPresent + 1
      rw [hpresent, h.job_receivers]
    outcome_senders := by
      change p.outcomes.senders + 1 = (p.workers ++ [Worker.ready]).countP Worker.isPresent + 1
      rw [hpresent, houtcomes]
      rfl
    staffed := by
      change p.workers.length + (n + 1) = p.team at hstaffed
      change (p.workers ++ [Worker.ready]).length + n = p.team
      rw [List.length_append, List.length_singleton]
      omega
    idle := by
      intro hgone
      rcases List.mem_append.1 hgone with hgone | hgone
      · exact hidle hgone
      · cases List.mem_singleton.1 hgone
    alone := nofun }

/-- **Every move keeps the ends of the channels in order.** -/
theorem Wired.step {limit : ℕ} (h : p.Wired limit) (hstep : Step w p m e q) : q.Wired limit := by
  have hjobs := h.job_senders
  have houtcomes := h.outcome_senders
  have hstaffed := h.staffed
  have hidle := h.idle
  cases hstep with
  | queue hparent hsend =>
      obtain ⟨-, -, rfl⟩ := Channel.send_eq_done_iff.1 hsend
      refine h.turn ?_ ?_ ?_ (fun hdone => by cases hdone) ?_ p.outcomes.items p.faults
      all_goals rw [hparent]
      · rfl
      · rfl
      · rfl
      · intro _ hnone
        cases hnone
  | refuse hparent hsend => exact absurd hsend (h.send_job_ne_closed _)
  | stock hparent =>
      rw [hparent] at hjobs houtcomes hstaffed hidle
      exact { h with
        job_senders := congrArg (· - 1) hjobs
        outcome_senders := houtcomes
        staffed := hstaffed
        idle := fun hgone => absurd (hidle hgone).2 Nat.one_ne_zero
        alone := nofun }
  | hire hparent => exact h.hire hparent
  | staff hparent =>
      rw [hparent] at hjobs houtcomes hstaffed hidle
      exact { h with
        job_senders := hjobs
        outcome_senders := congrArg (· - 1) houtcomes
        staffed := hstaffed
        idle := hidle
        alone := nofun }
  | drain hparent hreceive =>
      obtain ⟨rest, -, rfl⟩ := Channel.receive_eq_done_iff.1 hreceive
      refine h.turn ?_ ?_ ?_ (fun hdone => by cases hdone) (fun hnil _ => hnil) rest _
      all_goals
        rw [hparent]
        rfl
  | despair hparent hreceive =>
      refine h.turn ?_ ?_ ?_ (fun hdone => by cases hdone) (fun hnil _ => hnil) p.outcomes.items _
      all_goals
        rw [hparent]
        rfl
  | settle hparent =>
      refine h.turn ?_ ?_ ?_ (fun hdone => by cases hdone) (fun hnil _ => hnil) p.outcomes.items
        p.faults
      all_goals
        rw [hparent]
        rfl
  | finish hparent hleft =>
      have hpresent : p.present = 0 := by
        refine List.countP_eq_zero.2 fun a ha => ?_
        have hgone := List.all_eq_true.1 hleft a ha
        simp [Worker.isPresent, hgone]
      refine h.turn ?_ ?_ ?_ (fun _ => hpresent) (fun hnil _ => hnil) p.outcomes.items p.faults
      all_goals
        rw [hparent]
        rfl
  | take hworker hreceive =>
      obtain ⟨rest, hitems, rfl⟩ := Channel.receive_eq_done_iff.1 hreceive
      have hfiles : p.jobs.items = [] → rest = [] := fun hnil => by
        rw [hitems] at hnil
        cases hnil
      exact h.replace hworker rfl rfl hfiles p.outcomes.items p.state
  | leave hworker hreceive => exact h.dismiss hworker hreceive
  | write hworker => exact h.replace hworker rfl rfl id p.outcomes.items _
  | report hworker hsend =>
      obtain ⟨-, -, rfl⟩ := Channel.send_eq_done_iff.1 hsend
      exact h.replace hworker rfl rfl id _ p.state
  | quit hworker hsend => exact absurd hsend (h.send_outcome_ne_closed _)

/-! ### The places of files and outcomes -/

/-- Every file is written, being written, in the queue or on its way there, and the outcome of every
file that was written is received, on its way to the parent or about to be sent.  The parent waits
for as many outcomes as it has not received. -/
structure Accounted (files : List OutputFile) (events : List Event) (p : Pool σ) : Prop where
  total_eq : p.total = files.length
  placed : (files : Multiset OutputFile) =
    ↑((written events).map Prod.fst) + p.writing + ↑p.jobs.items + ↑p.parent.unqueued
  delivered : (↑((written events).map Prod.snd) : Multiset (Except Fault Unit)) =
    ↑(received events) + ↑p.outcomes.items + p.unreported
  awaited : (received events).length + p.parent.awaited p.total = p.total
  collected : p.faults = (received events).foldl Faults.pushResult {}
  single : ∀ f e, (f, .error e) ∈ written events → e.parts = [e]

/-- What a worker is replaced by changes what the workers hold by the difference. -/
theorem filterMap_set {β : Type} (g : Worker → Option β) {l : List Worker} {i : ℕ} {a : Worker}
    (h : l[i]? = some a) (b : Worker) :
    ∃ rest : Multiset β, (l : Multiset Worker).filterMap g = (g a).toList + rest ∧
      ((l.set i b : List Worker) : Multiset Worker).filterMap g = (g b).toList + rest := by
  obtain ⟨rest, hold, hnew⟩ := exists_perm_set h
  have hcons (c : Worker) : ((c :: rest).filterMap g : Multiset β) =
      (g c).toList + (rest.filterMap g : List β) := by
    rw [List.filterMap_cons, Multiset.coe_add]
    cases g c <;> rfl
  refine ⟨(rest.filterMap g : List β), ?_, ?_⟩
  · rw [Multiset.filterMap_coe, Multiset.coe_eq_coe.2 (hold.filterMap g), hcons]
  · rw [Multiset.filterMap_coe, Multiset.coe_eq_coe.2 ((hnew b).filterMap g), hcons]

theorem accounted_start (files : List OutputFile) (limit : ℕ) (s : σ) :
    (start files limit s).Accounted files [] where
  total_eq := rfl
  placed := by
    simp [written, writing, start, Parent.unqueued]
  delivered := by
    simp [written, received, unreported, start]
  awaited := Nat.zero_add _
  collected := rfl
  single _ _ h := absurd h List.not_mem_nil

section Accounts

variable {files : List OutputFile} {events : List Event} {limit : ℕ}

/-- **The parent waits for as many outcomes as there will be**: one for each file that is not
written yet, and one for each outcome that is on its way. -/
theorem Accounted.awaited_eq (h : p.Accounted files events) :
    p.parent.awaited p.total = p.writing.card + p.jobs.items.length + p.parent.unqueued.length +
      p.outcomes.items.length + p.unreported.card := by
  have hplaced := congrArg Multiset.card h.placed
  have hdelivered := congrArg Multiset.card h.delivered
  have hawaited := h.awaited
  have htotal := h.total_eq
  simp only [Multiset.card_add, Multiset.coe_card, List.length_map] at hplaced hdelivered
  omega

/-- Where no worker is there, every worker has left. -/
theorem eq_gone_of_present (h : p.present = 0) {a : Worker} (ha : a ∈ p.workers) : a = .gone := by
  have hleft := List.countP_eq_zero.1 h a ha
  cases a with
  | gone => rfl
  | ready => exact absurd rfl hleft
  | writing f => exact absurd rfl hleft
  | reporting outcome => exact absurd rfl hleft

/-- Workers that have left hold nothing. -/
theorem filterMap_eq_zero {β : Type} {g : Worker → Option β} (hg : g .gone = none)
    (h : p.present = 0) : (p.workers : Multiset Worker).filterMap g = 0 := by
  rw [Multiset.filterMap_coe, Multiset.coe_eq_zero, List.filterMap_eq_nil_iff]
  intro a ha
  rw [eq_gone_of_present h ha, hg]

/-- **The workers do not leave too early.**  Once all of them have left, no file is in the queue, so
that there is no outcome to wait for. -/
theorem Accounted.receive_ne_closed (h : p.Accounted files events) (hw : p.Wired limit) {n : ℕ}
    (hparent : p.parent = .draining (n + 1)) : p.outcomes.receive ≠ .closed := by
  intro hclosed
  obtain ⟨hitems, hsenders⟩ := Channel.receive_eq_closed_iff.1 hclosed
  have hpresent : p.present = 0 := by
    have hends := hw.outcome_senders
    omega
  have hawaited := h.awaited_eq
  have hreceived := h.awaited
  have hstaffed := hw.staffed
  have hteam := hw.team_eq
  simp only [hparent, Parent.awaited, Parent.missing, Parent.unqueued, hitems, List.length_nil]
    at hawaited hreceived hstaffed
  have hpos : 0 < p.workers.length := by omega
  obtain ⟨a, ha⟩ := List.exists_mem_of_length_pos hpos
  have hjobs : p.jobs.items = [] := (hw.idle (eq_gone_of_present hpresent ha ▸ ha)).1
  have hwriting : p.writing = 0 := filterMap_eq_zero rfl hpresent
  have hunreported : p.unreported = 0 := filterMap_eq_zero rfl hpresent
  rw [hjobs, hwriting, hunreported] at hawaited
  simp at hawaited

/-- The first of some items may be the last of those before it. -/
theorem add_coe_cons {α : Type} (s : Multiset α) (l rest : List α) (a : α) :
    s + l + ↑(a :: rest) = s + ↑(l ++ [a]) + rest := by
  rw [add_assoc, add_assoc, Multiset.coe_add, Multiset.coe_add, List.append_assoc]
  rfl

theorem written_append (events : List Event) (e : Option Event) :
    written (events ++ e.toList) = written events ++ written e.toList := List.filterMap_append

theorem received_append (events : List Event) (e : Option Event) :
    received (events ++ e.toList) = received events ++ received e.toList := List.filterMap_append

/-- The parent receives an outcome. -/
theorem Accounted.drain (h : p.Accounted files events) {n : ℕ} {outcome : Except Fault Unit}
    {outcomes : Channel (Except Fault Unit)} (hparent : p.parent = .draining (n + 1))
    (hreceive : p.outcomes.receive = .done (outcome, outcomes)) :
    ({ p with
        outcomes
        faults := p.faults.pushResult outcome
        parent := .draining n } : Pool σ).Accounted files
      (events ++ (some (Event.received outcome)).toList) := by
  have hplaced := h.placed
  have hawaited := h.awaited
  obtain ⟨rest, hitems, rfl⟩ := Channel.receive_eq_done_iff.1 hreceive
  rw [hparent] at hplaced hawaited
  have hwritten : written (events ++ (some (Event.received outcome)).toList) = written events :=
    (written_append _ _).trans (List.append_nil _)
  have hreceived : received (events ++ (some (Event.received outcome)).toList) =
      received events ++ [outcome] := received_append _ _
  exact { h with
    placed := by
      rw [hwritten]
      exact hplaced
    delivered := by
      rw [hwritten, hreceived, h.delivered, hitems, Multiset.coe_add, Multiset.coe_add,
        List.append_cons]
      rfl
    awaited := by
      rw [hreceived, List.length_append, List.length_singleton, ← hawaited]
      change _ + 1 + n = _ + (n + 1)
      omega
    collected := by
      rw [hreceived, List.foldl_append, ← h.collected]
      rfl
    single := by
      rw [hwritten]
      exact h.single }

/-- A worker writes a file. -/
theorem Accounted.write (h : p.Accounted files events) {i : ℕ} {f : OutputFile}
    (hworker : p.workers[i]? = some (.writing f)) :
    ({ p with
        state := (w.write f p.state).1
        workers := p.workers.set i (.reporting (w.write f p.state).2) } : Pool σ).Accounted files
      (events ++ (some (Event.wrote f (w.write f p.state).2)).toList) := by
  have hwritten : written (events ++ (some (Event.wrote f (w.write f p.state).2)).toList) =
      written events ++ [(f, (w.write f p.state).2)] := written_append _ _
  have hreceived : received (events ++ (some (Event.wrote f (w.write f p.state).2)).toList) =
      received events := (received_append _ _).trans (List.append_nil _)
  obtain ⟨others, hbefore, hafter⟩ :=
    filterMap_set Worker.file? hworker (.reporting (w.write f p.state).2)
  obtain ⟨others', hbefore', hafter'⟩ :=
    filterMap_set Worker.outcome? hworker (.reporting (w.write f p.state).2)
  exact { h with
    placed := by
      rw [h.placed, hwritten, writing, writing, hbefore, hafter, List.map_append,
        ← Multiset.coe_add]
      simp only [Worker.file?, Option.toList_none, Option.toList_some, Multiset.coe_nil,
        List.map_cons, List.map_nil]
      abel
    delivered := by
      rw [hwritten, hreceived, unreported, hafter', List.map_append, ← Multiset.coe_add,
        h.delivered, unreported, hbefore']
      simp only [Worker.outcome?, Option.toList_none, Option.toList_some, Multiset.coe_nil,
        List.map_cons, List.map_nil]
      abel
    awaited := by
      rw [hreceived]
      exact h.awaited
    collected := by
      rw [hreceived]
      exact h.collected
    single := by
      intro f' e he
      rw [hwritten] at he
      rcases List.mem_append.1 he with he | he
      · exact h.single f' e he
      · obtain ⟨-, herror⟩ := Prod.mk.inj (List.mem_singleton.1 he)
        exact w.parts_eq herror.symm }

/-- **Every move keeps the account of the files and the outcomes.** -/
theorem Accounted.step (h : p.Accounted files events) (hw : p.Wired limit)
    (hstep : Step w p m e q) : q.Accounted files (events ++ e.toList) := by
  have hplaced := h.placed
  have hdelivered := h.delivered
  have hawaited := h.awaited
  cases hstep with
  | @queue f rest jobs hparent hsend =>
      obtain ⟨-, -, rfl⟩ := Channel.send_eq_done_iff.1 hsend
      rw [hparent] at hplaced hawaited
      rw [Option.toList_none, List.append_nil]
      exact { h with placed := hplaced.trans (add_coe_cons _ _ rest f), awaited := hawaited }
  | refuse hparent hsend => exact absurd hsend (hw.send_job_ne_closed _)
  | stock hparent =>
      rw [hparent] at hplaced hawaited
      rw [Option.toList_none, List.append_nil]
      exact { h with placed := hplaced, awaited := hawaited }
  | hire hparent =>
      rw [hparent] at hplaced hawaited
      rw [Option.toList_none, List.append_nil]
      have hnothing {β : Type} {g : Worker → Option β} (hg : g .ready = none) :
          ((p.workers ++ [.ready] : List Worker) : Multiset Worker).filterMap g =
            (p.workers : Multiset Worker).filterMap g := by
        rw [Multiset.filterMap_coe, Multiset.filterMap_coe, List.filterMap_append]
        simp [hg]
      exact { h with
        placed := by
          rw [writing, hnothing rfl]
          exact hplaced
        delivered := by
          rw [unreported, hnothing rfl]
          exact hdelivered
        awaited := hawaited }
  | staff hparent =>
      rw [hparent] at hplaced hawaited
      rw [Option.toList_none, List.append_nil]
      exact { h with placed := hplaced, awaited := hawaited }
  | drain hparent hreceive => exact h.drain hparent hreceive
  | despair hparent hreceive => exact absurd hreceive (h.receive_ne_closed hw hparent)
  | settle hparent =>
      rw [hparent] at hplaced hawaited
      rw [Option.toList_none, List.append_nil]
      exact { h with placed := hplaced, awaited := hawaited }
  | finish hparent hleft =>
      rw [hparent] at hplaced hawaited
      rw [Option.toList_none, List.append_nil]
      exact { h with placed := hplaced, awaited := hawaited }
  | @take i f jobs hworker hreceive =>
      obtain ⟨rest, hitems, rfl⟩ := Channel.receive_eq_done_iff.1 hreceive
      rw [Option.toList_none, List.append_nil]
      obtain ⟨others, hbefore, hafter⟩ := filterMap_set Worker.file? hworker (.writing f)
      obtain ⟨others', hbefore', hafter'⟩ := filterMap_set Worker.outcome? hworker (.writing f)
      exact { h with
        placed := by
          rw [hplaced, writing, writing, hbefore, hafter, hitems, ← Multiset.cons_coe,
            ← Multiset.singleton_add]
          simp only [Worker.file?, Option.toList_none, Option.toList_some, Multiset.coe_nil,
            Multiset.coe_singleton]
          abel
        delivered := by
          rw [hdelivered, unreported, unreported, hbefore', hafter']
          rfl }
  | leave hworker hreceive =>
      rw [Option.toList_none, List.append_nil]
      obtain ⟨others, hbefore, hafter⟩ := filterMap_set Worker.file? hworker .gone
      obtain ⟨others', hbefore', hafter'⟩ := filterMap_set Worker.outcome? hworker .gone
      exact { h with
        placed := by
          rw [hplaced, writing, writing, dismiss, hbefore, hafter]
          rfl
        delivered := by
          rw [hdelivered, unreported, unreported, dismiss, hbefore', hafter']
          rfl }
  | write hworker => exact h.write hworker
  | @report i outcome outcomes hworker hsend =>
      obtain ⟨-, -, rfl⟩ := Channel.send_eq_done_iff.1 hsend
      rw [Option.toList_none, List.append_nil]
      obtain ⟨others, hbefore, hafter⟩ := filterMap_set Worker.file? hworker .ready
      obtain ⟨others', hbefore', hafter'⟩ := filterMap_set Worker.outcome? hworker .ready
      exact { h with
        placed := by
          rw [hplaced, writing, writing, hbefore, hafter]
          rfl
        delivered := by
          rw [hdelivered, unreported, unreported, hbefore', hafter', ← Multiset.coe_add]
          simp only [Worker.outcome?, Option.toList_none, Option.toList_some, Multiset.coe_nil]
          abel }
  | quit hworker hsend => exact absurd hsend (hw.send_outcome_ne_closed _)

end Accounts

end Pool

end Groundwork
