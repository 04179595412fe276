/-
What a collection of failures holds.

A collection takes an aggregate apart, but only one level deep: the parts go in as they are.  It
never holds an aggregate all the same, since there are no other aggregates than those that come out
of a collection.  Failures can therefore be collected in parts of any size, and the parts in parts
again: in the end the result is that of pushing every single failure by itself.

Main definitions:

* `Groundwork.Fault.Single` — a failure that is no aggregate;
* `Groundwork.Report`, `Groundwork.Collection` — a failure and a collection, by how they came about;
* `Groundwork.Collection.faults` — the collection after its calls;
* `Groundwork.Collection.singles` — the single failures that went into it, from left to right.

Main results:

* `Groundwork.Faults.parts_of_result` — the result of a collection has its failures as parts;
* `Groundwork.Collection.list_faults` — a collection holds what went into it;
* `Groundwork.Collection.collects` — **a collection is told by the single failures in it**.
-/
import Groundwork.Fault
import Mathlib.Data.List.Basic

set_option relaxedAutoImplicit false
set_option autoImplicit false

namespace Groundwork

/-! ### Single failures -/

/-- The failure is no aggregate. -/
def Fault.Single (f : Fault) : Prop := ∀ l, f ≠ .many l

/-- No aggregate has itself as its only part. -/
theorem Fault.single_iff {f : Fault} : f.Single ↔ f.parts = [f] := by
  constructor
  · intro h
    cases f with
    | many l => exact absurd rfl (h l)
    | _ => rfl
  · rintro h l rfl
    have hsize : sizeOf l = sizeOf [Fault.many l] := congrArg sizeOf h
    simp at hsize
    omega

/-- The failures of a result. -/
def Faults.partsOf : Except Fault Unit → List Fault
  | .ok () => []
  | .error f => f.parts

namespace Faults

variable {fs : Faults}

theorem ext_list {fs' : Faults} (h : fs.list = fs'.list) : fs = fs' := congrArg Faults.mk h

theorem list_pushResult (fs : Faults) (r : Except Fault Unit) :
    (fs.pushResult r).list = fs.list ++ partsOf r := by
  cases r with
  | ok u => exact (List.append_nil _).symm
  | error f => rfl

theorem list_extend (fs : Faults) (l : List Fault) :
    (fs.extend l).list = fs.list ++ l.flatMap Fault.parts := by
  induction l generalizing fs with
  | nil => exact (List.append_nil _).symm
  | cons f l ih =>
      change ((fs.push f).extend l).list = _
      rw [ih, push, List.flatMap_cons, List.append_assoc]

/-- Single failures are collected as they are. -/
theorem list_extend_of_single {l : List Fault} (h : ∀ f ∈ l, f.Single) :
    (extend {} l).list = l := by
  rw [list_extend, List.nil_append, List.flatMap_congr fun f hf => Fault.single_iff.1 (h f hf)]
  exact List.flatMap_singleton' l

/-- A collection without aggregates comes apart into its failures again. -/
theorem partsOf_result (h : ∀ f ∈ fs.list, f.Single) : partsOf fs.result = fs.list := by
  rw [result]
  split
  case h_1 hnil => exact hnil.symm
  case h_2 f hone =>
      rw [hone] at h ⊢
      exact Fault.single_iff.1 (h f (List.mem_singleton_self f))
  case h_3 => rfl

theorem parts_of_result (h : ∀ f ∈ fs.list, f.Single) {f : Fault} (hf : fs.result = .error f) :
    f.parts = fs.list := by
  rw [← partsOf_result h, hf]
  rfl

/-- The result is one of the failures itself if and only if there is no other. -/
theorem result_eq_single_iff (h : ∀ f ∈ fs.list, f.Single) {f : Fault} :
    (fs.result = .error f ∧ f.Single) ↔ fs.list = [f] := by
  constructor
  · rintro ⟨hf, hsingle⟩
    rw [← parts_of_result h hf]
    exact Fault.single_iff.1 hsingle
  · intro hone
    exact ⟨by rw [result, hone], h f (by rw [hone]; exact List.mem_singleton_self f)⟩

/-- The result is an aggregate if and only if there are several failures, and then it is that of all
of them. -/
theorem result_eq_many_iff (h : ∀ f ∈ fs.list, f.Single) {l : List Fault} :
    fs.result = .error (.many l) ↔ l = fs.list ∧ 2 ≤ l.length := by
  constructor
  · intro hl
    have hlist : l = fs.list := parts_of_result h hl
    refine ⟨hlist, ?_⟩
    match l, hlist with
    | [], hnil => simp [result, ← hnil] at hl
    | [f], hone =>
        rw [(result_eq_single_iff h).2 hone.symm |>.1] at hl
        have hf : f.Single := h f (by rw [← hone]; exact List.mem_singleton_self f)
        exact absurd (Except.error.inj hl) (hf [f])
    | f :: g :: l, _ => exact Nat.le_add_left 2 l.length
  · rintro ⟨rfl, htwo⟩
    exact result_of_two_le htwo

end Faults

/-! ### Calls -/

mutual

/-- A failure or a success that is reported to a collection, by how it came about. -/
inductive Report where
  /-- There is no failure. -/
  | success
  /-- A failure that is no aggregate. -/
  | single (fault : Fault) (h : fault.Single)
  /-- A collection as an aggregate, however many failures it holds. -/
  | bundle (collection : Collection)
  /-- The result of a collection. -/
  | settled (collection : Collection)

/-- A collection of failures, by the calls that were made on it. -/
inductive Collection where
  /-- The collection is new. -/
  | empty
  /-- A failure is pushed; where there is none the call is left out. -/
  | push (collection : Collection) (report : Report)
  /-- A result is pushed. -/
  | pushResult (collection : Collection) (report : Report)
  /-- The failures among several reports are added in turn. -/
  | extend (collection : Collection) (reports : List Report)

end

mutual

/-- What is reported. -/
def Report.result : Report → Except Fault Unit
  | .success => .ok ()
  | .single f _ => .error f
  | .bundle c => .error (.many c.faults.list)
  | .settled c => c.faults.result

/-- The failures that are reported. -/
def Report.errors : List Report → List Fault
  | [] => []
  | r :: rs =>
    match r.result with
    | .ok () => Report.errors rs
    | .error f => f :: Report.errors rs

/-- The collection after its calls. -/
def Collection.faults : Collection → Faults
  | .empty => {}
  | .push c r =>
    match r.result with
    | .ok () => c.faults
    | .error f => c.faults.push f
  | .pushResult c r => c.faults.pushResult r.result
  | .extend c rs => c.faults.extend (Report.errors rs)

end

mutual

/-- The single failures behind a report. -/
def Report.singles : Report → List Fault
  | .success => []
  | .single f _ => [f]
  | .bundle c => c.singles
  | .settled c => c.singles

/-- The single failures behind several reports. -/
def Report.allSingles : List Report → List Fault
  | [] => []
  | r :: rs => r.singles ++ Report.allSingles rs

/-- The single failures that went into a collection, directly or within aggregates. -/
def Collection.singles : Collection → List Fault
  | .empty => []
  | .push c r => c.singles ++ r.singles
  | .pushResult c r => c.singles ++ r.singles
  | .extend c rs => c.singles ++ Report.allSingles rs

end

/-! ### What went in -/

theorem Report.allSingles_append (rs rs' : List Report) :
    Report.allSingles (rs ++ rs') = Report.allSingles rs ++ Report.allSingles rs' := by
  induction rs with
  | nil => rfl
  | cons r rs ih => rw [List.cons_append, allSingles, ih, allSingles, List.append_assoc]

mutual

theorem Report.single_of_mem : ∀ (r : Report), ∀ f ∈ r.singles, f.Single
  | .success, _, hf => absurd hf List.not_mem_nil
  | .single g h, f, hf => by
      rw [Report.singles, List.mem_singleton] at hf
      exact hf ▸ h
  | .bundle c, f, hf => c.single_of_mem f hf
  | .settled c, f, hf => c.single_of_mem f hf

theorem Report.single_of_mem_all : ∀ (rs : List Report), ∀ f ∈ Report.allSingles rs, f.Single
  | [], _, hf => absurd hf List.not_mem_nil
  | r :: rs, f, hf =>
      (List.mem_append.1 hf).elim (r.single_of_mem f) (Report.single_of_mem_all rs f)

theorem Collection.single_of_mem : ∀ (c : Collection), ∀ f ∈ c.singles, f.Single
  | .empty, _, hf => absurd hf List.not_mem_nil
  | .push c r, f, hf => (List.mem_append.1 hf).elim (c.single_of_mem f) (r.single_of_mem f)
  | .pushResult c r, f, hf => (List.mem_append.1 hf).elim (c.single_of_mem f) (r.single_of_mem f)
  | .extend c rs, f, hf =>
      (List.mem_append.1 hf).elim (c.single_of_mem f) (Report.single_of_mem_all rs f)

end

mutual

/-- What is reported comes apart into single failures. -/
theorem Report.partsOf_result : ∀ r : Report, Faults.partsOf r.result = r.singles
  | .success => rfl
  | .single f h => Fault.single_iff.1 h
  | .bundle c => c.list_faults
  | .settled c => by
      have hlist := c.list_faults
      have hsingle : ∀ f ∈ c.faults.list, f.Single := hlist ▸ c.single_of_mem
      exact (Faults.partsOf_result hsingle).trans hlist

theorem Report.parts_errors : ∀ rs : List Report,
    (Report.errors rs).flatMap Fault.parts = Report.allSingles rs
  | [] => rfl
  | r :: rs => by
      have hr := r.partsOf_result
      rw [Report.errors, Report.allSingles, ← hr, ← Report.parts_errors rs]
      cases r.result with
      | ok u => rfl
      | error f => exact List.flatMap_cons

/-- **A collection holds the single failures that went into it**, from left to right. -/
theorem Collection.list_faults : ∀ c : Collection, c.faults.list = c.singles
  | .empty => rfl
  | .push c r => by
      have hr := r.partsOf_result
      rw [Collection.faults, Collection.singles, ← c.list_faults, ← hr]
      cases r.result with
      | ok u => exact (List.append_nil _).symm
      | error f => rfl
  | .pushResult c r => by
      rw [Collection.faults, Faults.list_pushResult, c.list_faults, r.partsOf_result,
        Collection.singles]
  | .extend c rs => by
      rw [Collection.faults, Faults.list_extend, c.list_faults, Report.parts_errors,
        Collection.singles]

end

namespace Collection

/-- The same single failures make the same collection. -/
theorem faults_congr {c d : Collection} (h : c.singles = d.singles) : c.faults = d.faults :=
  Faults.ext_list (by rw [list_faults, list_faults, h])

/-- Groups of reports are collected apart from each other, and the results of the groups are pushed
in turn. -/
def inParts (c : Collection) (groups : List (List Report)) : Collection :=
  groups.foldl (fun c group => c.pushResult (.settled (.extend .empty group))) c

theorem singles_inParts (c : Collection) (groups : List (List Report)) :
    (c.inParts groups).singles = c.singles ++ Report.allSingles groups.flatten := by
  induction groups generalizing c with
  | nil => exact (List.append_nil _).symm
  | cons group groups ih =>
      change ((c.pushResult (.settled (.extend .empty group))).inParts groups).singles = _
      rw [ih, List.flatten_cons, Report.allSingles_append, ← List.append_assoc]
      rfl

/-- **A collection is told by the single failures that went into it.**  It holds them from left to
right and no aggregate; its result is a success if there are none, the failure itself if there is
one, and the aggregate of all of them else.  It is thus the same whether failures are collected in
parts, whose results are pushed, or all of them one by one. -/
theorem collects (c : Collection) (groups : List (List Report)) :
    c.faults.list = c.singles ∧ (∀ f ∈ c.faults.list, f.Single) ∧
      (c.faults.result = .ok () ↔ c.singles = []) ∧
      (∀ f, (c.faults.result = .error f ∧ f.Single) ↔ c.singles = [f]) ∧
      (∀ l, c.faults.result = .error (.many l) ↔ l = c.singles ∧ 2 ≤ l.length) ∧
      c.faults.result = (Faults.extend {} c.singles).result ∧
      (c.inParts groups).faults.result = (c.extend groups.flatten).faults.result := by
  have hlist := c.list_faults
  have hsingle : ∀ f ∈ c.faults.list, f.Single := hlist ▸ c.single_of_mem
  refine ⟨hlist, hsingle, ?_, fun f => ?_, fun l => ?_, ?_, ?_⟩
  · rw [Faults.result_eq_ok_iff, hlist]
  · rw [Faults.result_eq_single_iff hsingle, hlist]
  · rw [Faults.result_eq_many_iff hsingle, hlist]
  · have hdirect : (Faults.extend {} c.singles).list = c.singles :=
      Faults.list_extend_of_single c.single_of_mem
    rw [Faults.ext_list (hlist.trans hdirect.symm)]
  · have hsame : (c.inParts groups).singles = (c.extend groups.flatten).singles :=
      singles_inParts c groups
    rw [faults_congr hsame]

/-- Groups of no, one and two failures, the last of which comes back as an aggregate. -/
example :
    let failure (id : String) : Report := .single (.vertexNotFound id) nofun
    let groups := [[], [failure "a"], [failure "b", .bundle (.push .empty (failure "c"))]]
    (empty.inParts groups).faults =
      ⟨[.vertexNotFound "a", .vertexNotFound "b", .vertexNotFound "c"]⟩ := rfl

end Collection

end Groundwork
