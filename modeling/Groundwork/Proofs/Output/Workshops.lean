/-
Workers that make one call at a time.

In a workshop the parent and the workers go on in any order, and between two calls of a worker
others may make theirs.  Its turns are those of a pool, except that a write takes many turns.  So
the accounts of a pool are kept, and with them what is known of each file.

Main definitions:

* `Groundwork.Workshop.Step` — the turns, one case for each thing that can happen;
* `Groundwork.Workshop.tasks` — the files with how far they have got;
* `Groundwork.Workshop.Attended` — what is true during a run;
* `Groundwork.Phase.left`, `Groundwork.Workshop.left` — numbers that every call makes smaller.

Main results:

* `Groundwork.Workshop.Step.of_step` — there are no other turns;
* `Groundwork.Workshop.Attended.step` — **every turn keeps what is known**;
* `Groundwork.Workshop.Attended.left_lt` — every turn brings the workshop nearer to its end;
* `Groundwork.Workshop.Attended.exists_turn` — a workshop does not stop before its end.
-/
import Groundwork.Proofs.Output.Schedules
import Groundwork.Proofs.Output.Tasks
import Mathlib.Algebra.BigOperators.Group.Multiset.Defs
import Mathlib.Data.List.ReduceOption

set_option relaxedAutoImplicit false
set_option autoImplicit false

namespace Groundwork

open Phase (Holds Leads)

/-- A file is written with a given outcome. -/
def Writer.returning (outcome : Except Fault Unit)
    (h : ∀ e, outcome = .error e → e.parts = [e]) : Writer Disk where
  write _ d := (d, outcome)
  parts_eq he := h _ he

namespace Phase

variable {f : OutputFile}

/-- A number that every call for a file makes smaller. -/
def left (f : OutputFile) : Phase → ℕ
  | .making path later again =>
    (if again then 0 else 3 * path.length) + 2 * later.length + f.body.data.toList.length + 7
  | .checking _ later _ => 2 * later.length + f.body.data.toList.length + 6
  | .opening => f.body.data.toList.length + 5
  | .asking _ => f.body.data.toList.length + 4
  | .creating => f.body.data.toList.length + 2
  | .emptying _ _ => f.body.data.toList.length + 3
  | .rewinding _ _ => f.body.data.toList.length + 2
  | .filling _ _ rest => rest.length + 1
  | .finished _ => 0

theorem left_onward (f : OutputFile) (path later : List PathStep) :
    (onward path later).left f = 2 * later.length + f.body.data.toList.length + 5 := by
  cases later with
  | nil => simp [onward, left]
  | cons c later =>
      simp only [onward, left, if_true, List.length_cons]
      omega

/-- **Every call for a file brings it nearer to its end.** -/
theorem left_next_lt (dest : FilePath) (n : ℕ) (d : Disk) {phase : Phase}
    (hphase : ∀ outcome, phase ≠ .finished outcome) :
    (next f dest n d phase).2.left f < phase.left f := by
  cases phase with
  | making path later again =>
      cases path with
      | nil =>
          have hnext : (next f dest n d (.making [] later again)).2 = onward [] later := rfl
          rw [hnext, left_onward, left]
          omega
      | cons c front =>
          rw [next_making]
          split
          case h_1 =>
              rw [left_onward, left]
              omega
          case h_2 e _ =>
              split
              case isTrue hdown =>
                  have hfirst : again = false := by simpa using (Bool.and_eq_true_iff.1 hdown).2
                  simp only [left, hfirst, Bool.false_eq_true, if_false, List.length_cons]
                  omega
              case isFalse =>
                  simp only [left]
                  omega
  | checking path later e =>
      rw [next_checking]
      split
      · rw [left_onward, left]
        omega
      · simp only [left]
        omega
  | opening =>
      rw [next_opening]
      split <;> simp only [left] <;> omega
  | asking p =>
      rw [next_asking]
      split <;> simp only [left] <;> omega
  | creating =>
      rw [next_creating]
      split <;> simp only [left] <;> omega
  | emptying p offset => exact Nat.lt_succ_self _
  | rewinding p offset => exact Nat.lt_succ_self _
  | filling p offset rest =>
      cases rest with
      | nil => exact Nat.zero_lt_one
      | cons b rest =>
          rw [next_filling]
          simp only [left, List.length_drop, List.length_cons]
          omega
  | finished outcome => exact absurd rfl (hphase outcome)

end Phase

namespace Workshop

variable {dest : FilePath} {w v : Workshop} {t : Turn} {e : Option Pool.Event}

/-! ### Turns -/

/-- A worker that does not write. -/
def Idle (p : Pool Disk) (i : ℕ) : Prop := ∀ f, p.workers[i]? ≠ some (.writing f)

/-- The turns of a workshop. -/
inductive Step (dest : FilePath) (w : Workshop) : Turn → Option Pool.Event → Workshop → Prop
  /-- The parent acts. -/
  | lead {e : Option Pool.Event} {p : Pool Disk}
      (hmove : Pool.Step (OutputFile.writer dest) w.pool .lead e p) :
      Step dest w .lead e { w with pool := p }
  /-- A worker acts that does not write. -/
  | work {i n : ℕ} {p : Pool Disk} (hbefore : Idle w.pool i)
      (hmove : Pool.Step (OutputFile.writer dest) w.pool (.work i) none p) (hafter : Idle p i) :
      Step dest w (.work i n) none { w with pool := p }
  /-- A worker takes a file. -/
  | take {i n : ℕ} {f : OutputFile} {jobs : Channel OutputFile}
      (hworker : w.pool.workers[i]? = some .ready)
      (hreceive : w.pool.jobs.receive = .done (f, jobs)) :
      Step dest w (.work i n) none
        (setPhase
          { w with pool := { w.pool with jobs, workers := w.pool.workers.set i (.writing f) } }
          i (f.firstPhase dest))
  /-- A worker makes the next call for its file. -/
  | call {i n : ℕ} {f : OutputFile} (hworker : w.pool.workers[i]? = some (.writing f))
      (hphase : ∀ outcome, w.phases i ≠ .finished outcome) :
      Step dest w (.work i n) none
        (setPhase
          { w with pool := { w.pool with state := ((w.phases i).next f dest n w.pool.state).1 } }
          i ((w.phases i).next f dest n w.pool.state).2)
  /-- A worker takes note of an outcome. -/
  | conclude {i n : ℕ} {f : OutputFile} {outcome : Except Fault Unit}
      (hworker : w.pool.workers[i]? = some (.writing f)) (hphase : w.phases i = .finished outcome) :
      Step dest w (.work i n) (some (.wrote f outcome))
        { w with pool := { w.pool with workers := w.pool.workers.set i (.reporting outcome) } }

/-- A worker has become another one. -/
theorem getElem?_set_of_some {l : List Worker} {i : ℕ} {a : Worker} (h : l[i]? = some a)
    (b : Worker) : (l.set i b)[i]? = some b :=
  List.getElem?_set_self (List.getElem?_eq_some_iff.1 h).1

/-- The turns of workers that do not write. -/
theorem Step.of_work {i n : ℕ} {p : Pool Disk} (hbefore : Idle w.pool i)
    (hp : w.pool.work (OutputFile.writer dest) i = some p) :
    ∃ e, Step dest w (.work i n) e
      (match p.workers[i]? with
        | some (.writing f) => setPhase { w with pool := p } i (f.firstPhase dest)
        | _ => { w with pool := p }) := by
  refine ⟨none, ?_⟩
  -- what the worker has become tells what it did
  have hidle {p : Pool Disk} {a b : Worker} (hworker : w.pool.workers[i]? = some a)
      (hworkers : p.workers = w.pool.workers.set i b) (hb : ∀ f, b ≠ .writing f)
      (hmove : Pool.Step (OutputFile.writer dest) w.pool (.work i) none p) :
      Step dest w (.work i n) none
        (match p.workers[i]? with
          | some (.writing f) => setPhase { w with pool := p } i (f.firstPhase dest)
          | _ => { w with pool := p }) := by
    have hafter : p.workers[i]? = some b := by
      rw [hworkers, getElem?_set_of_some hworker]
    have hstep := Step.work (n := n) hbefore hmove fun f hf => hb f <| by
      rw [hafter] at hf
      exact Option.some.inj hf
    rw [hafter]
    cases b with
    | writing f => exact absurd rfl (hb f)
    | _ => exact hstep
  have hmove := Pool.Step.of_work hp
  generalize Pool.event? _ w.pool (.work i) = e at hmove
  cases hmove with
  | take hworker hreceive =>
      dsimp only
      rw [getElem?_set_of_some hworker]
      exact .take hworker hreceive
  | leave hworker hreceive => exact hidle hworker rfl nofun (.leave hworker hreceive)
  | write hworker => exact absurd hworker (hbefore _)
  | report hworker hsend => exact hidle hworker rfl nofun (.report hworker hsend)
  | quit hworker hsend => exact hidle hworker rfl nofun (.quit hworker hsend)

/-- There are no other turns. -/
theorem Step.of_step (h : w.step dest t = some v) : ∃ e, Step dest w t e v := by
  cases t with
  | lead =>
      obtain ⟨p, hp, rfl⟩ := Option.map_eq_some_iff.1 h
      exact ⟨_, .lead (Pool.Step.of_lead hp)⟩
  | work i n =>
      rw [step_work] at h
      split at h
      case h_1 f hworker =>
          obtain rfl := Option.some.inj h
          unfold proceed
          split
          case h_1 outcome hphase => exact ⟨_, .conclude hworker hphase⟩
          case h_2 hphase => exact ⟨_, .call hworker hphase⟩
      case h_2 hidle =>
          obtain ⟨p, hp, rfl⟩ := Option.map_eq_some_iff.1 h
          exact Step.of_work hidle hp

/-! ### Tasks -/

/-- The files that workers write, with how far they have got. -/
def desk (l : List Worker) (phases : ℕ → Phase) : Multiset (OutputFile × Phase) :=
  ((l.mapIdx fun i a => a.file?.map (·, phases i)).reduceOption : List (OutputFile × Phase))

/-- The files that are done, being written or waiting, with how far they have got. -/
def tasks (dest : FilePath) (events : List Pool.Event) (w : Workshop) :
    Multiset (OutputFile × Phase) :=
  reported (Pool.written events) + desk w.pool.workers w.phases +
    ((w.pool.jobs.items : Multiset OutputFile) + w.pool.parent.unqueued).map
      fun f => (f, f.firstPhase dest)

/-- What a worker is replaced by changes what is on the desks by the difference. -/
theorem desk_set {l : List Worker} {i : ℕ} {a : Worker} (h : l[i]? = some a) (phases : ℕ → Phase) :
    ∃ rest : Multiset (OutputFile × Phase),
      desk l phases = (a.file?.map (·, phases i)).toList + rest ∧
      ∀ (b : Worker) (phases' : ℕ → Phase), (∀ j, j ≠ i → phases' j = phases j) →
        desk (l.set i b) phases' = (b.file?.map (·, phases' i)).toList + rest := by
  have hentry : (l.mapIdx fun i a => a.file?.map (·, phases i))[i]? =
      some (a.file?.map (·, phases i)) := by
    rw [List.getElem?_mapIdx, h]
    rfl
  obtain ⟨rest, hold, hnew⟩ := exists_perm_set hentry
  have hcons (x : Option (OutputFile × Phase)) :
      (((x :: rest).reduceOption : List (OutputFile × Phase)) : Multiset (OutputFile × Phase)) =
        x.toList + (rest.reduceOption : List (OutputFile × Phase)) := by
    rw [Multiset.coe_add]
    cases x <;> rfl
  refine ⟨(rest.reduceOption : List (OutputFile × Phase)), ?_, fun b phases' hphases => ?_⟩
  · rw [← hcons, desk]
    exact Multiset.coe_eq_coe.2 (hold.filterMap id)
  · have hset : ((l.set i b).mapIdx fun i a => a.file?.map (·, phases' i)) =
        (l.mapIdx fun i a => a.file?.map (·, phases i)).set i (b.file?.map (·, phases' i)) := by
      refine List.ext_getElem? fun j => ?_
      rw [List.getElem?_mapIdx, List.getElem?_set, List.getElem?_set, List.length_mapIdx]
      by_cases hj : i = j
      · subst hj
        have hi := (List.getElem?_eq_some_iff.1 h).1
        rw [if_pos rfl, if_pos rfl, if_pos hi, if_pos hi]
        rfl
      · rw [if_neg hj, if_neg hj, List.getElem?_mapIdx, hphases j (Ne.symm hj)]
    rw [← hcons, desk, hset]
    exact Multiset.coe_eq_coe.2 ((hnew _).filterMap id)

theorem map_desk (l : List Worker) (phases : ℕ → Phase) :
    (desk l phases).map Prod.fst = (l : Multiset Worker).filterMap Worker.file? := by
  rw [desk, Multiset.map_coe, Multiset.filterMap_coe]
  congr 1
  induction l generalizing phases with
  | nil => rfl
  | cons a l ih =>
      have hrest := ih fun i => phases (i + 1)
      rw [List.mapIdx_cons, List.filterMap_cons]
      cases a with
      | writing f => exact congrArg _ hrest
      | _ => exact hrest

theorem desk_append_ready (l : List Worker) (phases : ℕ → Phase) :
    desk (l ++ [.ready]) phases = desk l phases := by
  rw [desk, desk, List.mapIdx_append, List.reduceOption_append]
  exact congrArg _ (List.append_nil _)

section Tasks

variable {events : List Pool.Event} {limit : ℕ} {i : ℕ} {f : OutputFile}

/-- Where the parent or a worker that does not write acts, no file gets any further. -/
theorem tasks_move (events : List Pool.Event) (hw : w.pool.Wired limit) {m : Move} {p : Pool Disk}
    (hmove : Pool.Step (OutputFile.writer dest) w.pool m e p)
    (hidle : ∀ i, m = .work i → Idle w.pool i ∧ Idle p i) :
    p.state = w.pool.state ∧
      tasks dest (events ++ e.toList) { w with pool := p } = tasks dest events w := by
  have hquiet :
      Pool.written (events ++ (none : Option Pool.Event).toList) = Pool.written events := by
    rw [Option.toList_none, List.append_nil]
  unfold tasks
  cases hmove with
  | @queue f rest jobs hparent hsend =>
      obtain ⟨-, -, rfl⟩ := Channel.send_eq_done_iff.1 hsend
      refine ⟨rfl, ?_⟩
      have hfiles : ((w.pool.jobs.items ++ [f] : List OutputFile) : Multiset OutputFile) + rest =
          w.pool.jobs.items + (f :: rest : List OutputFile) := by
        rw [Multiset.coe_add, Multiset.coe_add, List.append_assoc]
        rfl
      rw [hquiet, hparent]
      dsimp only [Parent.unqueued]
      rw [hfiles]
  | refuse hparent hsend => exact absurd hsend (hw.send_job_ne_closed _)
  | stock hparent =>
      rw [hquiet, hparent]
      exact ⟨rfl, rfl⟩
  | hire hparent =>
      rw [hquiet, hparent]
      dsimp only [Parent.unqueued]
      rw [desk_append_ready]
      exact ⟨rfl, rfl⟩
  | staff hparent =>
      rw [hquiet, hparent]
      exact ⟨rfl, rfl⟩
  | @drain n outcome outcomes hparent hreceive =>
      have hwritten : Pool.written (events ++ (some (Pool.Event.received outcome)).toList) =
          Pool.written events := (Pool.written_append _ _).trans (List.append_nil _)
      rw [hwritten, hparent]
      exact ⟨rfl, rfl⟩
  | despair hparent hreceive =>
      rw [hquiet, hparent]
      exact ⟨rfl, rfl⟩
  | settle hparent =>
      rw [hquiet, hparent]
      exact ⟨rfl, rfl⟩
  | finish hparent hleft =>
      rw [hquiet, hparent]
      exact ⟨rfl, rfl⟩
  | take hworker hreceive =>
      exact absurd (getElem?_set_of_some hworker _) ((hidle _ rfl).2 _)
  | leave hworker hreceive =>
      obtain ⟨rest, hbefore, hafter⟩ := desk_set hworker w.phases
      have hdesk : desk (w.pool.dismiss _).workers w.phases = desk w.pool.workers w.phases :=
        (hafter .gone w.phases fun _ _ => rfl).trans hbefore.symm
      dsimp only
      rw [hquiet, hdesk]
      exact ⟨rfl, rfl⟩
  | write hworker => exact absurd hworker ((hidle _ rfl).1 _)
  | report hworker hsend =>
      obtain ⟨rest, hbefore, hafter⟩ := desk_set hworker w.phases
      dsimp only
      rw [hquiet, hafter .ready w.phases fun _ _ => rfl, hbefore]
      exact ⟨rfl, rfl⟩
  | quit hworker hsend => exact absurd hsend (hw.send_outcome_ne_closed _)

/-- A worker takes a file, for which it has not made any call. -/
theorem tasks_take {jobs : Channel OutputFile} (hworker : w.pool.workers[i]? = some .ready)
    (hreceive : w.pool.jobs.receive = .done (f, jobs)) :
    tasks dest events (setPhase
      { w with pool := { w.pool with jobs, workers := w.pool.workers.set i (.writing f) } }
      i (f.firstPhase dest)) = tasks dest events w := by
  obtain ⟨items, hitems, rfl⟩ := Channel.receive_eq_done_iff.1 hreceive
  obtain ⟨rest, hbefore, hafter⟩ := desk_set hworker w.phases
  have hdesk := hafter (.writing f) (fun j => if j = i then f.firstPhase dest else w.phases j)
    fun j hj => if_neg hj
  rw [tasks, tasks, setPhase]
  dsimp only
  rw [hdesk, hbefore, hitems, ← Multiset.cons_coe, Multiset.cons_add, Multiset.map_cons]
  simp only [Worker.file?, Option.map_some, Option.map_none, Option.toList_some,
    Option.toList_none, if_true, Multiset.coe_nil, Multiset.coe_singleton,
    ← Multiset.singleton_add (f, f.firstPhase dest)]
  abel

/-- A file on a desk is one of the tasks, and gets further there. -/
theorem tasks_call (dest : FilePath) (events : List Pool.Event)
    (hworker : w.pool.workers[i]? = some (.writing f)) :
    ∃ rest, tasks dest events w = (f, w.phases i) ::ₘ rest ∧
      ∀ (d : Disk) (phase : Phase),
        tasks dest events (setPhase { w with pool := { w.pool with state := d } } i phase) =
          (f, phase) ::ₘ rest := by
  obtain ⟨rest, hbefore, hafter⟩ := desk_set hworker w.phases
  have hsame : w.pool.workers.set i (.writing f) = w.pool.workers := by
    obtain ⟨hi, hget⟩ := List.getElem?_eq_some_iff.1 hworker
    rw [← hget, List.set_getElem_self]
  refine ⟨reported (Pool.written events) + rest +
    ((w.pool.jobs.items : Multiset OutputFile) + w.pool.parent.unqueued).map
      (fun f => (f, f.firstPhase dest)), ?_, fun d phase => ?_⟩
  · rw [tasks, hbefore, ← Multiset.singleton_add]
    simp only [Worker.file?, Option.map_some, Option.toList_some, Multiset.coe_singleton]
    abel
  · have hdesk := hafter (.writing f) (fun j => if j = i then phase else w.phases j)
      fun j hj => if_neg hj
    rw [hsame] at hdesk
    rw [tasks, setPhase]
    dsimp only
    rw [hdesk, ← Multiset.singleton_add]
    simp only [Worker.file?, Option.map_some, Option.toList_some, if_true,
      Multiset.coe_singleton]
    abel

/-- A worker takes note of an outcome. -/
theorem tasks_conclude {outcome : Except Fault Unit}
    (hworker : w.pool.workers[i]? = some (.writing f)) (hphase : w.phases i = .finished outcome) :
    tasks dest (events ++ (some (Pool.Event.wrote f outcome)).toList)
      { w with pool := { w.pool with workers := w.pool.workers.set i (.reporting outcome) } } =
        tasks dest events w := by
  obtain ⟨rest, hbefore, hafter⟩ := desk_set hworker w.phases
  have hwritten : Pool.written (events ++ (some (Pool.Event.wrote f outcome)).toList) =
      Pool.written events ++ [(f, outcome)] := Pool.written_append _ _
  rw [tasks, tasks]
  dsimp only
  rw [hwritten, hafter (.reporting outcome) w.phases fun _ _ => rfl, hbefore, hphase, reported,
    reported, ← Multiset.coe_add, Multiset.map_add, Multiset.coe_singleton, Multiset.map_singleton]
  simp only [Worker.file?, Option.map_some, Option.map_none, Option.toList_some,
    Option.toList_none, Multiset.coe_nil, Multiset.coe_singleton]
  abel

end Tasks

/-! ### What is true during a run -/

/-- What is true during a run. -/
structure Attended (d₀ : Disk) (dest : FilePath) (files : List OutputFile) (limit : ℕ)
    (events : List Pool.Event) (w : Workshop) : Prop where
  wired : w.pool.Wired limit
  accounted : w.pool.Accounted files events
  undertaken : Undertaken d₀ dest (w.tasks dest events) w.pool.state

section Attended

variable {d₀ : Disk} {files : List OutputFile} {limit : ℕ} {events : List Pool.Event}

/-- Every file is one of the tasks. -/
theorem map_tasks (dest : FilePath) (h : w.pool.Accounted files events) :
    (w.tasks dest events).map Prod.fst = (files : Multiset OutputFile) := by
  have hplaced := h.placed
  rw [Pool.writing, ← map_desk w.pool.workers w.phases] at hplaced
  rw [tasks, Multiset.map_add, Multiset.map_add, map_reported, Multiset.map_map]
  simp only [Function.comp_def, Multiset.map_id']
  rw [hplaced, Multiset.map_coe]
  abel

/-- To take note of an outcome is to write a file with this outcome at once. -/
theorem Attended.write (h : Attended d₀ dest files limit events w) {i : ℕ} {f : OutputFile}
    {outcome : Except Fault Unit} (hworker : w.pool.workers[i]? = some (.writing f))
    (hphase : w.phases i = .finished outcome) :
    ∃ writer : Writer Disk, Pool.Step writer w.pool (.work i) (some (.wrote f outcome))
      { w.pool with workers := w.pool.workers.set i (.reporting outcome) } := by
  obtain ⟨rest, htasks, -⟩ := tasks_call dest events hworker
  have hholds := h.undertaken.holds (f, w.phases i) (htasks ▸ Multiset.mem_cons_self _ _)
  rw [hphase] at hholds
  cases hholds with | finished hsuits
  exact ⟨.returning outcome fun _ => hsuits.parts_eq, .write hworker⟩

/-- **Every turn keeps what is known.** -/
theorem Attended.step (h : Attended d₀ dest files limit events w) (hstep : Step dest w t e v)
    (hfiles : Spaced (files : Multiset OutputFile)) :
    Attended d₀ dest files limit (events ++ e.toList) v := by
  cases hstep with
  | lead hmove =>
      obtain ⟨hstate, htasks⟩ := tasks_move events h.wired hmove nofun
      refine ⟨h.wired.step hmove, h.accounted.step h.wired hmove, ?_⟩
      rw [htasks]
      dsimp only
      rw [hstate]
      exact h.undertaken
  | work hbefore hmove hafter =>
      obtain ⟨hstate, htasks⟩ := tasks_move events h.wired hmove
        fun j hj => by cases hj; exact ⟨hbefore, hafter⟩
      refine ⟨h.wired.step hmove, h.accounted.step h.wired hmove, ?_⟩
      rw [htasks]
      dsimp only
      rw [hstate]
      exact h.undertaken
  | take hworker hreceive =>
      have hmove := Pool.Step.take (w := OutputFile.writer dest) hworker hreceive
      refine ⟨h.wired.step hmove, h.accounted.step h.wired hmove, ?_⟩
      rw [Option.toList_none, List.append_nil, tasks_take hworker hreceive]
      exact h.undertaken
  | call hworker hphase =>
      obtain ⟨rest, hbefore, hafter⟩ := tasks_call dest events hworker
      have hmap := map_tasks dest h.accounted
      rw [hbefore, Multiset.map_cons] at hmap
      have hundertaken := h.undertaken
      rw [hbefore] at hundertaken
      rw [Option.toList_none, List.append_nil]
      refine ⟨{ h.wired with }, { h.accounted with }, ?_⟩
      rw [hafter]
      exact hundertaken.next (hmap ▸ hfiles) _
  | @conclude i n f outcome hworker hphase =>
      obtain ⟨_, hmove⟩ := h.write hworker hphase
      refine ⟨h.wired.step hmove, h.accounted.step h.wired hmove, ?_⟩
      rw [tasks_conclude hworker hphase]
      exact h.undertaken

/-- A number that every turn makes smaller. -/
def left (dest : FilePath) (events : List Pool.Event) (w : Workshop) : ℕ :=
  w.pool.left + ((w.tasks dest events).map fun task => task.2.left task.1).sum

/-- **Every turn brings the workshop nearer to its end.** -/
theorem Attended.left_lt (h : Attended d₀ dest files limit events w) (hstep : Step dest w t e v) :
    v.left dest (events ++ e.toList) < w.left dest events := by
  unfold left
  cases hstep with
  | lead hmove =>
      rw [(tasks_move events h.wired hmove nofun).2]
      exact Nat.add_lt_add_right hmove.left_lt _
  | work hbefore hmove hafter =>
      rw [(tasks_move events h.wired hmove
        fun j hj => by cases hj; exact ⟨hbefore, hafter⟩).2]
      exact Nat.add_lt_add_right hmove.left_lt _
  | take hworker hreceive =>
      rw [Option.toList_none, List.append_nil, tasks_take hworker hreceive]
      exact Nat.add_lt_add_right
        (Pool.Step.take (w := OutputFile.writer dest) hworker hreceive).left_lt _
  | @call i n f hworker hphase =>
      obtain ⟨rest, hbefore, hafter⟩ := tasks_call dest events hworker
      rw [Option.toList_none, List.append_nil, hbefore, hafter, Multiset.map_cons,
        Multiset.map_cons, Multiset.sum_cons, Multiset.sum_cons]
      exact Nat.add_lt_add_left (Nat.add_lt_add_right (Phase.left_next_lt dest n _ hphase) _) _
  | @conclude i n f outcome hworker hphase =>
      obtain ⟨_, hmove⟩ := h.write hworker hphase
      rw [tasks_conclude hworker hphase]
      exact Nat.add_lt_add_right hmove.left_lt _

/-- **A workshop does not stop before its end.** -/
theorem Attended.exists_turn (h : Attended d₀ dest files limit events w)
    (hparent : w.pool.parent ≠ .done) : ∃ t, (w.step dest t).isSome = true := by
  cases hlead : w.pool.lead with
  | some p =>
      refine ⟨.lead, ?_⟩
      change (w.pool.lead.map _).isSome = true
      rw [hlead]
      rfl
  | none =>
      obtain ⟨i, hi⟩ := h.accounted.exists_work h.wired (OutputFile.writer dest) hparent hlead
      refine ⟨.work i 0, ?_⟩
      rw [step_work]
      split
      · rfl
      · rw [Option.isSome_map]
        exact hi

end Attended

end Workshop

end Groundwork
