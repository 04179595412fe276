/-
What a pipeline executes, and how it names a failure.

A pipeline is a forest of stages, and only its leaves do something.  A run takes the leaves in the
order in which they are written and stops after the first one that fails.  Every group on the way to
a leaf puts its name before the path of the failure, and none of them knows of the others; the path
stays flat because the report of a failed stage has no place for the report of another one.

Main definitions:

* `Groundwork.Cause.Holds` — the stage failure that a cause holds, directly or under contexts;
  `Groundwork.Cause.Bare` — the cause holds none;
* `Groundwork.Leaf` — a stage without inner stages, with the names above it;
  `Groundwork.Stage.leaves`, `Groundwork.Pipeline.leaves` — the leaves in order;
* `Groundwork.Leaf.Succeed` — leaves that all succeed, one after another;
* `Groundwork.Pipeline.logged` — the pipeline in which every leaf writes its name into a log.

Main results:

* `Groundwork.Leaf.exists_path_fault` — how the failure of a leaf is reported;
* `Groundwork.Pipeline.run_eq_inTurn` — a pipeline runs its leaves in turn;
* `Groundwork.Pipeline.run_executes` — **what is executed and what is reported**.
-/
import Groundwork.Pipeline.Stage
import Mathlib.Data.List.Basic

set_option relaxedAutoImplicit false
set_option autoImplicit false

namespace Groundwork

/-! ### Stage failures inside causes -/

namespace Cause

/-- The cause is the failure of the stages `path` for the reason `reason`, or puts contexts before
it. -/
inductive Holds : Cause → List String → Reason → Prop
  | stage (path : List String) (reason : Reason) : Holds (.stage [] path reason) path reason
  | context (text : String) {inner : Cause} {path : List String} {reason : Reason} :
      Holds inner path reason → Holds (inner.context text) path reason

/-- The cause holds no stage failure, neither directly nor under contexts. -/
def Bare (c : Cause) : Prop := ∀ path reason, ¬ c.Holds path reason

theorem holds_stage (contexts path : List String) (reason : Reason) :
    (Cause.stage contexts path reason).Holds path reason := by
  induction contexts with
  | nil => exact .stage path reason
  | cons text contexts ih => exact .context text ih

/-- A stage failure under contexts is written as such. -/
theorem Holds.exists_eq {c : Cause} {path : List String} {reason : Reason}
    (h : c.Holds path reason) : ∃ contexts, c = .stage contexts path reason := by
  induction h with
  | stage => exact ⟨[], rfl⟩
  | context text _ ih =>
      obtain ⟨contexts, rfl⟩ := ih
      exact ⟨text :: contexts, rfl⟩

/-- A reason holds no stage failure. -/
theorem bare_bare (reason : Reason) : (Cause.bare reason).Bare := by
  intro path reason' h
  obtain ⟨contexts, heq⟩ := h.exists_eq
  cases heq

end Cause

namespace StageFault

/-- The failure with the name of a stage around it. -/
def under (name : String) (e : StageFault) : StageFault := { e with path := name :: e.path }

/-- Around the failure of a stage, wrapping only adds a name. -/
theorem wrap_toCause (name : String) (e : StageFault) : wrap name e.toCause = e.under name := rfl

end StageFault

/-! ### Leaves -/

/-- A stage that does something itself. -/
structure Leaf (σ : Type) where
  /-- The names of the groups around it, from the outermost on. -/
  above : List String
  /-- Its own name. -/
  name : String
  /-- What it does. -/
  act : σ → σ × Except Cause Unit

variable {σ : Type}

namespace Leaf

/-- The names from the outermost group down to the leaf. -/
def path (l : Leaf σ) : List String := l.above ++ [l.name]

/-- The leaf with a group around it. -/
def under (name : String) (l : Leaf σ) : Leaf σ := { l with above := name :: l.above }

/-- The state after leaves have done what they do, whether they report failures or not. -/
def effects (leaves : List (Leaf σ)) (s : σ) : σ := leaves.foldl (fun s l => (l.act s).1) s

/-- Each of the leaves succeeds where the ones before it have left the state. -/
def Succeed : List (Leaf σ) → σ → Prop
  | [], _ => True
  | l :: rest, s => (l.act s).2 = .ok () ∧ Succeed rest (l.act s).1

/-- The failure of a leaf, as it is reported from the outside of all groups. -/
def fault (l : Leaf σ) (c : Cause) : StageFault :=
  let e := StageFault.wrap l.name c
  { e with path := l.above ++ e.path }

/-- Runs leaves until one fails. -/
def inTurn : List (Leaf σ) → σ → σ × Except StageFault Unit
  | [], s => (s, .ok ())
  | l :: rest, s =>
    match l.act s with
    | (s, .ok ()) => inTurn rest s
    | (s, .error c) => (s, .error (l.fault c))

/-- A failure of its own is reported with the names down to the leaf. -/
theorem fault_bare (l : Leaf σ) (reason : Reason) : l.fault (.bare reason) = ⟨l.path, reason⟩ := rfl

/-- The names of a stage failure that the leaf passes on follow those down to the leaf. -/
theorem fault_of_holds (l : Leaf σ) {c : Cause} {path : List String} {reason : Reason}
    (h : c.Holds path reason) : l.fault c = ⟨l.path ++ path, reason⟩ := by
  obtain ⟨contexts, rfl⟩ := h.exists_eq
  change StageFault.mk (l.above ++ l.name :: path) reason = _
  rw [Leaf.path, List.append_assoc, List.singleton_append]

/-- The failure of a leaf carries the names down to the leaf, then those of the stage failure that
the cause holds, if it holds one, and the innermost reason. -/
theorem exists_path_fault (l : Leaf σ) (c : Cause) :
    ∃ below, (l.fault c).path = l.path ++ below ∧
      (c.Bare → below = [] ∧ c = .bare (l.fault c).cause) ∧
      ∀ path reason, c.Holds path reason → below = path ∧ (l.fault c).cause = reason := by
  cases c with
  | bare reason =>
      refine ⟨[], ?_, fun _ => ⟨rfl, rfl⟩, fun path reason' h => ?_⟩
      · rw [fault_bare, List.append_nil]
      · exact absurd h (Cause.bare_bare reason path reason')
  | stage contexts path reason =>
      have hholds := Cause.holds_stage contexts path reason
      rw [l.fault_of_holds hholds]
      refine ⟨path, rfl, fun hbare => absurd hholds (hbare path reason), ?_⟩
      intro path' reason' h
      obtain ⟨contexts', heq⟩ := h.exists_eq
      cases heq
      exact ⟨rfl, rfl⟩

theorem inTurn_append_of_ok {front : List (Leaf σ)} {s t : σ} (h : inTurn front s = (t, .ok ()))
    (rest : List (Leaf σ)) : inTurn (front ++ rest) s = inTurn rest t := by
  induction front generalizing s with
  | nil =>
      cases h
      rfl
  | cons l front ih =>
      rw [inTurn] at h
      rw [List.cons_append, inTurn]
      split at h
      case h_1 => exact ih h
      case h_2 => cases h

theorem inTurn_append_of_error {front : List (Leaf σ)} {s t : σ} {e : StageFault}
    (h : inTurn front s = (t, .error e)) (rest : List (Leaf σ)) :
    inTurn (front ++ rest) s = (t, .error e) := by
  induction front generalizing s with
  | nil => cases h
  | cons l front ih =>
      rw [inTurn] at h
      rw [List.cons_append, inTurn]
      split at h
      case h_1 => exact ih h
      case h_2 => exact h

/-- A group adds its name to the failures of its leaves. -/
theorem inTurn_map_under (name : String) (leaves : List (Leaf σ)) (s : σ) :
    inTurn (leaves.map (under name)) s =
      ((inTurn leaves s).1, (inTurn leaves s).2.mapError (StageFault.under name)) := by
  induction leaves generalizing s with
  | nil => rfl
  | cons l leaves ih =>
      rw [List.map_cons, inTurn, inTurn]
      change (match l.act s with | (s, .ok ()) => _ | (s, .error c) => _) = _
      split
      case h_1 => exact ih _
      case h_2 => rfl

theorem inTurn_of_succeed {leaves : List (Leaf σ)} {s : σ} (h : Succeed leaves s) :
    inTurn leaves s = (effects leaves s, .ok ()) := by
  induction leaves generalizing s with
  | nil => rfl
  | cons l leaves ih =>
      have hact : l.act s = ((l.act s).1, .ok ()) := Prod.ext rfl h.1
      rw [inTurn, hact]
      exact ih h.2

/-- Leaves that succeed and a leaf that fails end the run, whatever comes after them. -/
theorem inTurn_of_fails {before : List (Leaf σ)} {last : Leaf σ} {s : σ} {cause : Cause}
    (h : Succeed before s) (hfail : (last.act (effects before s)).2 = .error cause)
    (after : List (Leaf σ)) :
    inTurn (before ++ last :: after) s =
      (effects (before ++ [last]) s, .error (last.fault cause)) := by
  have hact : last.act (effects before s) = ((last.act (effects before s)).1, .error cause) :=
    Prod.ext rfl hfail
  have heffects : effects (before ++ [last]) s = (last.act (effects before s)).1 :=
    List.foldl_append
  rw [inTurn_append_of_ok (inTurn_of_succeed h), inTurn, hact, heffects]

/-- Either all leaves succeed, or there is a first one that fails. -/
theorem succeed_or_fails (leaves : List (Leaf σ)) (s : σ) :
    Succeed leaves s ∨ ∃ before last after cause, leaves = before ++ last :: after ∧
      Succeed before s ∧ (last.act (effects before s)).2 = .error cause := by
  induction leaves generalizing s with
  | nil => exact Or.inl trivial
  | cons l leaves ih =>
      cases hact : (l.act s).2 with
      | ok u =>
          obtain hall | ⟨before, last, after, cause, rfl, hall, hfail⟩ := ih (l.act s).1
          · exact Or.inl ⟨hact, hall⟩
          · exact Or.inr ⟨l :: before, last, after, cause, rfl, ⟨hact, hall⟩, hfail⟩
      | error cause => exact Or.inr ⟨[], l, leaves, cause, rfl, trivial, hact⟩

theorem not_succeed_of_fails {before after : List (Leaf σ)} {last : Leaf σ} {s : σ} {cause : Cause}
    (hfail : (last.act (effects before s)).2 = .error cause) :
    ¬ Succeed (before ++ last :: after) s := by
  induction before generalizing s with
  | nil =>
      intro h
      exact absurd (h.1.symm.trans hfail) (by simp)
  | cons l before ih => exact fun h => ih hfail h.2

end Leaf

/-! ### The leaves of a pipeline -/

namespace Stage

mutual

/-- The leaves of a stage, from left to right. -/
def leaves : Stage σ → List (Leaf σ)
  | .single name act => [⟨[], name, act⟩]
  | .group name stages => (leavesAll stages).map (Leaf.under name)

/-- The leaves of stages, from left to right. -/
def leavesAll : List (Stage σ) → List (Leaf σ)
  | [] => []
  | stage :: rest => stage.leaves ++ leavesAll rest

end

mutual

/-- A stage runs its leaves in turn; whatever fails in it is reported under its name. -/
theorem run_eq_inTurn : ∀ (stage : Stage σ) (s : σ),
    ((stage.run s).1, (stage.run s).2.mapError (StageFault.wrap stage.name)) =
      Leaf.inTurn stage.leaves s
  | .single name act, s => by
      rw [run, leaves, Leaf.inTurn]
      change ((act s).1, (act s).2.mapError (StageFault.wrap name)) =
        match act s with | (s, .ok ()) => _ | (s, .error c) => _
      split
      case h_1 heq => rw [heq]; rfl
      case h_2 heq => rw [heq]; rfl
  | .group name stages, s => by
      rw [run, leaves, Leaf.inTurn_map_under, runAll_eq_inTurn stages s]
      -- the group wraps what its stages have wrapped already
      cases Leaf.inTurn (leavesAll stages) s with
      | mk t result =>
          cases result with
          | ok u => rfl
          | error e =>
              exact congrArg (fun e => (t, Except.error e))
                (StageFault.wrap_toCause name e)

/-- The stages of a group run their leaves in turn. -/
theorem runAll_eq_inTurn : ∀ (stages : List (Stage σ)) (s : σ),
    runAll stages s = ((Leaf.inTurn (leavesAll stages) s).1,
      (Leaf.inTurn (leavesAll stages) s).2.mapError StageFault.toCause)
  | [], s => rfl
  | stage :: rest, s => by
      have hstage := run_eq_inTurn stage s
      rw [runAll, leavesAll]
      split
      case h_1 t heq =>
          rw [heq] at hstage
          rw [runAll_eq_inTurn rest t, Leaf.inTurn_append_of_ok hstage.symm]
      case h_2 t cause heq =>
          rw [heq] at hstage
          rw [Leaf.inTurn_append_of_error hstage.symm]
          rfl

end

end Stage

namespace Pipeline

/-- The leaves of a pipeline, from left to right; an open place has none. -/
def leaves : Pipeline σ → List (Leaf σ)
  | [] => []
  | none :: rest => leaves rest
  | some stage :: rest => stage.leaves ++ leaves rest

/-- A pipeline runs its leaves in turn. -/
theorem run_eq_inTurn (p : Pipeline σ) (s : σ) : p.run s = Leaf.inTurn p.leaves s := by
  induction p generalizing s with
  | nil => rfl
  | cons place rest ih =>
      cases place with
      | none => exact ih s
      | some stage =>
          have hstage := stage.run_eq_inTurn s
          rw [run, leaves]
          split
          case h_1 t heq =>
              rw [heq] at hstage
              rw [ih t, Leaf.inTurn_append_of_ok hstage.symm]
          case h_2 t cause heq =>
              rw [heq] at hstage
              rw [Leaf.inTurn_append_of_error hstage.symm]

end Pipeline

/-! ### A log of what is executed -/

/-- The leaf that also writes its name into a log. -/
def Leaf.logged (l : Leaf σ) : Leaf (σ × List String) :=
  { l with act := fun s => (((l.act s.1).1, s.2 ++ [l.name]), (l.act s.1).2) }

namespace Stage

mutual

/-- The stage in which every leaf also writes its name into a log. -/
def logged : Stage σ → Stage (σ × List String)
  | .single name act =>
    .single name fun s => (((act s.1).1, s.2 ++ [name]), (act s.1).2)
  | .group name stages => .group name (loggedAll stages)

/-- The stages in which every leaf also writes its name into a log. -/
def loggedAll : List (Stage σ) → List (Stage (σ × List String))
  | [] => []
  | stage :: rest => stage.logged :: loggedAll rest

end

mutual

theorem leaves_logged : ∀ stage : Stage σ, stage.logged.leaves = stage.leaves.map Leaf.logged
  | .single name act => rfl
  | .group name stages => by
      rw [logged, leaves, leaves, leavesAll_loggedAll stages, List.map_map, List.map_map]
      rfl

theorem leavesAll_loggedAll : ∀ stages : List (Stage σ),
    leavesAll (loggedAll stages) = (leavesAll stages).map Leaf.logged
  | [] => rfl
  | stage :: rest => by
      rw [loggedAll, leavesAll, leavesAll, leaves_logged stage, leavesAll_loggedAll rest,
        List.map_append]

end

end Stage

/-- The pipeline in which every leaf also writes its name into a log. -/
def Pipeline.logged (p : Pipeline σ) : Pipeline (σ × List String) := p.map (Option.map Stage.logged)

theorem Pipeline.leaves_logged (p : Pipeline σ) : p.logged.leaves = p.leaves.map Leaf.logged := by
  induction p with
  | nil => rfl
  | cons place rest ih =>
      cases place with
      | none => exact ih
      | some stage =>
          change stage.logged.leaves ++ Pipeline.leaves (Pipeline.logged rest) = _
          rw [ih, stage.leaves_logged, leaves, List.map_append]

namespace Leaf

theorem effects_map_logged (leaves : List (Leaf σ)) (s : σ) (log : List String) :
    effects (leaves.map logged) (s, log) = (effects leaves s, log ++ leaves.map Leaf.name) := by
  induction leaves generalizing s log with
  | nil => exact congrArg (Prod.mk s) (List.append_nil log).symm
  | cons l leaves ih =>
      change effects (leaves.map logged) ((l.act s).1, log ++ [l.name]) = _
      rw [ih, List.append_assoc]
      rfl

theorem succeed_map_logged_iff (leaves : List (Leaf σ)) (s : σ) (log : List String) :
    Succeed (leaves.map logged) (s, log) ↔ Succeed leaves s := by
  induction leaves generalizing s log with
  | nil => exact Iff.rfl
  | cons l leaves ih => exact and_congr Iff.rfl (ih (l.act s).1 (log ++ [l.name]))

end Leaf

namespace Pipeline

/-- **What a pipeline executes, and what it reports.**  The executed leaves are the first ones from
left to right, and the state is what they have made of it, one after another; a log shows their
names in that order.  The run succeeds if and only if every leaf succeeds in its turn, and then all
of them are executed.  Otherwise the last executed leaf is the first one that fails.  The failure
carries the names down to that leaf, then those of the stage failure that the cause of the leaf
holds, if it holds one.  The cause of the failure is the innermost one, and holds no stage
failure. -/
theorem run_executes (p : Pipeline σ) (s : σ) :
    ∃ executed rest, p.leaves = executed ++ rest ∧
      (p.run s).1 = Leaf.effects executed s ∧
      p.logged.run (s, []) = (((p.run s).1, executed.map Leaf.name), (p.run s).2) ∧
      ((p.run s).2 = .ok () ↔ Leaf.Succeed p.leaves s) ∧
      ((p.run s).2 = .ok () → rest = []) ∧
      ∀ e, (p.run s).2 = .error e → ∃ before last cause below,
        executed = before ++ [last] ∧ Leaf.Succeed before s ∧
        (last.act (Leaf.effects before s)).2 = .error cause ∧
        e.path = last.path ++ below ∧
        (cause.Bare → below = [] ∧ cause = .bare e.cause) ∧
        (∀ path reason, cause.Holds path reason → below = path ∧ e.cause = reason) ∧
        (Cause.bare e.cause).Bare := by
  rw [run_eq_inTurn, run_eq_inTurn, leaves_logged]
  obtain hall | ⟨before, last, after, cause, hleaves, hall, hfail⟩ :=
    Leaf.succeed_or_fails p.leaves s
  · have hlogged := Leaf.inTurn_of_succeed ((Leaf.succeed_map_logged_iff p.leaves s []).2 hall)
    rw [Leaf.effects_map_logged, List.nil_append] at hlogged
    rw [hlogged, Leaf.inTurn_of_succeed hall]
    refine ⟨p.leaves, [], (List.append_nil _).symm, rfl, rfl, iff_of_true rfl hall,
      fun _ => rfl, ?_⟩
    intro e he
    cases he
  · have hfail' : (last.logged.act (Leaf.effects (before.map Leaf.logged) (s, []))).2 =
        .error cause := by
      rw [Leaf.effects_map_logged]
      exact hfail
    have hlogged := Leaf.inTurn_of_fails ((Leaf.succeed_map_logged_iff before s []).2 hall) hfail'
      (after.map Leaf.logged)
    have hsplit : (before ++ [last]).map Leaf.logged = before.map Leaf.logged ++ [last.logged] := by
      rw [List.map_append, List.map_singleton]
    rw [← hsplit, Leaf.effects_map_logged, List.nil_append] at hlogged
    have hleaves' : p.leaves.map Leaf.logged =
        before.map Leaf.logged ++ last.logged :: after.map Leaf.logged := by
      rw [hleaves, List.map_append, List.map_cons]
    rw [hleaves', hlogged, hleaves, Leaf.inTurn_of_fails hall hfail]
    refine ⟨before ++ [last], after, by simp, rfl, rfl,
      iff_of_false (by simp) (Leaf.not_succeed_of_fails hfail), ?_, ?_⟩
    · intro h
      cases h
    intro e he
    cases he
    obtain ⟨below, hpath, hbare, hholds⟩ := last.exists_path_fault cause
    exact ⟨before, last, cause, below, rfl, hall, hfail, hpath, hbare, hholds,
      Cause.bare_bare _⟩

end Pipeline

end Groundwork
