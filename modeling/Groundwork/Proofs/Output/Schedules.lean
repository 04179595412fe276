/-
Every order of the moves of a pool.

Whatever the order, no thread waits for ever: where the parent has to wait, a worker can go on.  A
run comes to its end when the parent has returned, and then every file was written once, and the
failures are those of the writes.

Main definitions:

* `Groundwork.Pool.Orderly`, `Groundwork.Pool.Complete` — what is true during a run, and what is
  true when no move can be made.

Main results:

* `Groundwork.Pool.Wired.exists_work` — a worker that is there need not wait for anybody;
* `Groundwork.Pool.Accounted.exists_work` — where the parent has to wait, a worker can go on;
* `Groundwork.Pool.Run.orderly`, `Groundwork.Pool.Run.complete` — all runs are orderly, and those
  without a next move complete;
* `Groundwork.writeFiles_delivers` — **in every order of the moves, every file is written once and
  every failure is reported**.
-/
import Groundwork.Proofs.Output.Accounts

set_option relaxedAutoImplicit false
set_option autoImplicit false

namespace Groundwork

namespace Pool

variable {σ : Type} {w : Writer σ} {p : Pool σ}

/-! ### Progress -/

section Progress

variable {files : List OutputFile} {events : List Event} {limit : ℕ}

/-- **A worker that is there need not wait for anybody.** -/
theorem Wired.exists_work (h : p.Wired limit) (w : Writer σ) {i : ℕ} {a : Worker}
    (hworker : p.workers[i]? = some a) (ha : a.isPresent = true) :
    (p.step w (.work i)).isSome = true := by
  change (p.work w i).isSome = true
  rw [work, hworker]
  cases a with
  | ready =>
      -- workers are started once all files are in the queue: there is one, or none is left
      have hsenders : p.jobs.senders = 0 := by
        rw [h.job_senders]
        cases hparent : p.parent with
        | queueing rest =>
            have hstaffed := h.staffed
            have hpos := (List.getElem?_eq_some_iff.1 hworker).1
            simp only [hparent, Parent.missing] at hstaffed
            omega
        | _ => rfl
      cases hreceive : p.jobs.receive with
      | done r => rfl
      | closed => rfl
      | waits => exact absurd hsenders (Channel.receive_eq_waits_iff.1 hreceive).2
  | writing f => rfl
  | reporting outcome =>
      -- there is room for any number of outcomes
      have hroom : p.outcomes.hasRoom = true := by
        rw [Channel.hasRoom, h.outcome_capacity]
      cases hsend : p.outcomes.send outcome with
      | done r => simp only [hsend, Option.isSome_some]
      | closed => simp only [hsend, Option.isSome_some]
      | waits => exact absurd (hroom.symm.trans (Channel.send_eq_waits_iff.1 hsend).2) (by decide)
  | gone => cases ha

theorem exists_present (h : 0 < p.present) :
    ∃ (i : ℕ) (a : Worker), p.workers[i]? = some a ∧ a.isPresent = true := by
  obtain ⟨a, ha, hpresent⟩ := List.countP_pos_iff.1 h
  obtain ⟨i, hi⟩ := List.getElem?_of_mem ha
  exact ⟨i, a, hi, hpresent⟩

/-- There is room in the queue for every file. -/
theorem Accounted.hasRoom (h : p.Accounted files events) (hw : p.Wired limit) {f : OutputFile}
    {rest : List OutputFile} (hparent : p.parent = .queueing (f :: rest)) :
    p.jobs.hasRoom = true := by
  have hawaited := h.awaited_eq
  simp only [hparent, Parent.awaited, Parent.unqueued, List.length_cons] at hawaited
  rw [Channel.hasRoom, hw.job_capacity]
  exact decide_eq_true (by omega)

/-- **Where the parent has to wait, a worker can go on.** -/
theorem Accounted.exists_work (h : p.Accounted files events) (hw : p.Wired limit) (w : Writer σ)
    (hparent : p.parent ≠ .done) (hwaits : p.step w .lead = none) :
    ∃ i, (p.step w (.work i)).isSome = true := by
  suffices hpresent : 0 < p.present by
    obtain ⟨i, a, hworker, ha⟩ := exists_present hpresent
    exact ⟨i, hw.exists_work w hworker ha⟩
  change p.lead = none at hwaits
  unfold lead at hwaits
  cases hat : p.parent with
  | queueing rest =>
      cases rest with
      | nil =>
          simp only [hat] at hwaits
          cases hwaits
      | cons f rest =>
          have hroom := h.hasRoom hw hat
          simp only [hat] at hwaits
          cases hsend : p.jobs.send f with
          | done r => simp [hsend] at hwaits
          | closed => simp [hsend] at hwaits
          | waits =>
              exact absurd (hroom.symm.trans (Channel.send_eq_waits_iff.1 hsend).2) (by decide)
  | hiring n =>
      simp only [hat] at hwaits
      cases n <;> cases hwaits
  | draining n =>
      cases n with
      | zero =>
          simp only [hat] at hwaits
          cases hwaits
      | succ n =>
          simp only [hat] at hwaits
          cases hreceive : p.outcomes.receive with
          | done r => simp [hreceive] at hwaits
          | closed => exact absurd hreceive (h.receive_ne_closed hw hat)
          | waits =>
              -- a sender is left, which is not one of the parent
              have hsenders := (Channel.receive_eq_waits_iff.1 hreceive).2
              have hends := hw.outcome_senders
              simp only [hat, Parent.outcomeSenders] at hends
              omega
  | joining =>
      simp only [hat, ite_eq_right_iff] at hwaits
      refine Nat.pos_of_ne_zero fun hnone => ?_
      have hleft : p.workers.all Worker.hasLeft = true := by
        refine List.all_eq_true.2 fun a ha => ?_
        rw [eq_gone_of_present hnone ha]
        rfl
      cases hwaits hleft
  | done => exact absurd hat hparent

end Progress

/-! ### Runs -/

section Runs

variable {files : List OutputFile} {events : List Event} {limit : ℕ} {moves : List Move} {s : σ}

theorem Run.accounts (h : Run w (start files limit s) moves events p) :
    p.Wired limit ∧ p.Accounted files events := by
  induction h with
  | nil => exact ⟨wired_start files limit s, accounted_start files limit s⟩
  | snoc m _ hstep ih =>
      have hmove := Step.of_step hstep
      exact ⟨ih.1.step hmove, ih.2.step ih.1 hmove⟩

/-- What is left behind is that of the files written, one after another. -/
theorem Run.state_eq (h : Run w (start files limit s) moves events p) :
    p.state = ((written events).map Prod.fst).foldl (fun s f => (w.write f s).1) s := by
  induction h with
  | nil => rfl
  | @snoc moves events q r m _ hstep ih =>
      have hmove (e : Option Event) (h : Step w q m e r) : r.state =
          ((written e.toList).map Prod.fst).foldl (fun s f => (w.write f s).1) q.state := by
        cases h <;> rfl
      rw [written_append, List.map_append, List.foldl_append, ← ih]
      exact hmove _ (Step.of_step hstep)

/-- What is true during a run. -/
structure Orderly (w : Writer σ) (files : List OutputFile) (limit : ℕ) (events : List Event)
    (p : Pool σ) : Prop where
  /-- Every file is in exactly one place: written, being written, in the queue or on its way. -/
  placed : (files : Multiset OutputFile) =
    ↑((written events).map Prod.fst) + p.writing + ↑p.jobs.items + ↑p.parent.unqueued
  /-- No more files are written at a time than the limit allows. -/
  limited : p.writing.card ≤ max limit 1
  /-- The parent does not find the queue closed. -/
  queue_open : ∀ f, p.jobs.send f ≠ .closed
  /-- No worker finds the parent gone. -/
  parent_there : ∀ outcome, p.outcomes.send outcome ≠ .closed
  /-- The parent does not find that the workers have left early. -/
  workers_there : ∀ n, p.parent = .draining (n + 1) → p.outcomes.receive ≠ .closed
  /-- Where the parent has to wait, a worker can go on. -/
  progress : p.parent ≠ .done → p.step w .lead = none → ∃ i, (p.step w (.work i)).isSome = true

/-- **A run is orderly.** -/
theorem Run.orderly (h : Run w (start files limit s) moves events p) :
    Orderly w files limit events p := by
  obtain ⟨hw, ha⟩ := h.accounts
  have hlimited : p.writing.card ≤ max limit 1 := by
    have hcrew : p.writing.card ≤ p.workers.length := by
      rw [writing, Multiset.filterMap_coe]
      exact List.length_filterMap_le _ _
    have hstaffed := hw.staffed
    have hteam := hw.team_eq
    omega
  exact ⟨ha.placed, hlimited, hw.send_job_ne_closed, hw.send_outcome_ne_closed,
    fun n hn => ha.receive_ne_closed hw hn, ha.exists_work hw w⟩

/-- What is true when no move can be made. -/
structure Complete (files : List OutputFile) (events : List Event) (p : Pool σ) : Prop where
  /-- The parent has returned. -/
  returned : p.parent = .done
  /-- Every file was written once. -/
  written_perm : ((written events).map Prod.fst).Perm files
  /-- The parent has received the outcome of every file once. -/
  received_perm : (received events).Perm ((written events).map Prod.snd)
  length_received : (received events).length = files.length
  /-- The pool succeeds if and only if every write did. -/
  result_eq_ok_iff : p.faults.result = .ok () ↔ ∀ x ∈ written events, x.2 = .ok ()
  /-- A lone failure is the result. -/
  result_of_one : ∀ e, failures ((written events).map Prod.snd) = [e] → p.faults.result = .error e
  /-- Several failures are the result together. -/
  result_of_several : 2 ≤ (failures ((written events).map Prod.snd)).length →
    ∃ l : List Fault, l.Perm (failures ((written events).map Prod.snd)) ∧
      p.faults.result = .error (.many l)

/-- Nothing is left on the way when the parent has returned. -/
theorem Accounted.of_done (h : p.Accounted files events) (hparent : p.parent = .done) :
    ((written events).map Prod.fst).Perm files ∧
      (received events).Perm ((written events).map Prod.snd) ∧
      (received events).length = files.length := by
  have hawaited := h.awaited_eq
  have hcount := h.awaited
  have hplaced := h.placed
  have hdelivered := h.delivered
  simp only [hparent, Parent.awaited, Parent.unqueued, List.length_nil] at hawaited hcount hplaced
  have hjobs : p.jobs.items = [] := List.length_eq_zero_iff.1 (by omega)
  have houtcomes : p.outcomes.items = [] := List.length_eq_zero_iff.1 (by omega)
  have hwriting : p.writing = 0 := Multiset.card_eq_zero.1 (by omega)
  have hunreported : p.unreported = 0 := Multiset.card_eq_zero.1 (by omega)
  rw [hjobs, hwriting] at hplaced
  rw [houtcomes, hunreported] at hdelivered
  refine ⟨(Multiset.coe_eq_coe.1 (hplaced.trans ?_)).symm,
    (Multiset.coe_eq_coe.1 (hdelivered.trans ?_)).symm, hcount.trans h.total_eq⟩
  · simp
  · simp

/-- The failures that the parent has met are those of the files, once all outcomes are received. -/
theorem Accounted.perm_failures (h : p.Accounted files events)
    (hreceived : (received events).Perm ((written events).map Prod.snd)) :
    p.faults.list.Perm (failures ((written events).map Prod.snd)) := by
  have hsingle : ∀ e, .error e ∈ received events → e.parts = [e] := by
    intro e he
    obtain ⟨⟨f, outcome⟩, hmem, rfl⟩ := List.mem_map.1 (hreceived.mem_iff.1 he)
    exact h.single f e hmem
  rw [h.collected, list_foldl_pushResult hsingle, List.nil_append]
  exact hreceived.filterMap _

/-- **A run without a next move is complete.** -/
theorem Run.complete (h : Run w (start files limit s) moves events p) (hhalted : p.Halted w) :
    Complete files events p := by
  obtain ⟨hw, ha⟩ := h.accounts
  have hreturned : p.parent = .done := by
    by_contra hparent
    obtain ⟨i, hi⟩ := ha.exists_work hw w hparent (hhalted .lead)
    rw [hhalted (.work i)] at hi
    cases hi
  obtain ⟨hwritten, hreceived, hlength⟩ := ha.of_done hreturned
  have hfailures := ha.perm_failures hreceived
  refine ⟨hreturned, hwritten, hreceived, hlength, ?_, fun e he => ?_, fun htwo => ?_⟩
  · have hnil : p.faults.list = [] ↔ failures ((written events).map Prod.snd) = [] := by
      rw [← List.length_eq_zero_iff, hfailures.length_eq, List.length_eq_zero_iff]
    rw [Faults.result_eq_ok_iff, hnil, failures_eq_nil_iff, List.forall_mem_map]
  · rw [he, List.perm_singleton] at hfailures
    rw [Faults.result, hfailures]
  · rw [← hfailures.length_eq] at htwo
    exact ⟨p.faults.list, hfailures, Faults.result_of_two_le htwo⟩

end Runs

end Pool

/-! ### All schedules -/

theorem Pool.left_start {σ : Type} (files : List OutputFile) (limit : ℕ) (s : σ) :
    (Pool.start files limit s).left =
      5 * files.length + 2 * min (max limit 1) files.length + 4 := by
  simp only [Pool.left, Pool.start, List.length_nil, Worker.leftAll]
  omega

/-- **In every order of the moves, every file is written once and every failure is reported**,
whatever the files are, however many workers are allowed, and whatever the writes find and leave
behind.  No run goes on for ever, and one that cannot go on is complete: the program makes such a
run. -/
theorem writeFiles_delivers (files : List OutputFile) (limit : ℕ) :
    (∀ (σ : Type) (w : Writer σ) (s : σ) (moves : List Move) (events : List Pool.Event)
        (p : Pool σ), Pool.Run w (Pool.start files limit s) moves events p →
      Pool.Orderly w files limit events p ∧
      moves.length ≤ 5 * files.length + 2 * min (max limit 1) files.length + 4 ∧
      (p.Halted w → Pool.Complete files events p)) ∧
    ∀ (dest : FilePath) (d : Disk), ∃ moves events p,
      Pool.Run (OutputFile.writer dest) (Pool.start files limit d) moves events p ∧
      p.Halted (OutputFile.writer dest) ∧
      writeFiles files dest limit d = (p.state, p.faults.result) := by
  constructor
  · intro σ w s moves events p h
    have hlength := h.length_add_left_le
    rw [Pool.left_start] at hlength
    exact ⟨h.orderly, by omega, h.complete⟩
  · intro dest d
    obtain ⟨moves, events, hrun, hhalted⟩ :=
      Pool.exists_run (OutputFile.writer dest) (Pool.Run.nil (p := Pool.start files limit d))
        (Nat.le_refl _)
    refine ⟨moves, events, _, hrun, hhalted, ?_⟩
    unfold writeFiles
    split
    case isTrue hempty =>
        obtain rfl : files = [] := List.isEmpty_iff.1 hempty
        have hcomplete := hrun.complete hhalted
        have hwritten : Pool.written events = [] :=
          List.map_eq_nil_iff.1 (List.perm_nil.1 hcomplete.written_perm)
        have hstate := hrun.state_eq
        rw [hwritten] at hstate
        rw [hstate, hcomplete.result_eq_ok_iff.2 (by simp [hwritten])]
        rfl
    case isFalse => rfl

/-- Files are not written at all, but fail as their renderers do. -/
def Writer.dry : Writer Unit where
  write f s := (s, match f.failure with
    | none => .ok ()
    | some reason => .error (.output reason))
  parts_eq := by
    intro f s e h
    dsimp only at h
    split at h <;> cases h
    rfl

/-- One of two files fails, and its failure is the result of a single worker. -/
theorem writeFiles_delivers_broken :
    let files := [OutputFile.raw ⟨"a"⟩ .empty, OutputFile.broken ⟨"b"⟩ .empty]
    ∃ moves events p, Pool.Run Writer.dry (Pool.start files 0 ()) moves events p ∧
      p.Halted Writer.dry ∧ Pool.Complete files events p ∧
      p.faults.result = .error (.output "renderer crashed") := by
  intro files
  obtain ⟨moves, events, hrun, hhalted⟩ := Pool.exists_run Writer.dry
    (Pool.Run.nil (p := Pool.start files 0 ())) (Nat.le_refl _)
  obtain ⟨hall, -⟩ := writeFiles_delivers files 0
  obtain ⟨-, -, hcomplete⟩ := hall Unit Writer.dry () moves events _ hrun
  exact ⟨moves, events, _, hrun, hhalted, hcomplete hhalted, rfl⟩

end Groundwork
