/-
Results under their own keys.

A result knows its key, and is stored under it when it is added.  A change of what is stored under
a key may put any result there, while queries by kind ask the results for their own keys and lookups
go by the keys under which results are stored.  The two agree as long as every change gives back a
result of the key that it was made for, and no longer.

Main definitions:

* `Groundwork.Results.Operation`, `Groundwork.Results.run` — the changes of a store of results, and
  runs of them;
* `Groundwork.Results.Filed` — every result is stored under its own key;
* `Groundwork.Results.Kept` — every change of a run gives back a result of the same key.

Main results:

* `Groundwork.Results.filed_perform_iff` — what one change does to the keys;
* `Groundwork.Results.filed_run_iff` — **results stay under their own keys exactly as long as every
  change keeps the key**;
* `Groundwork.Results.not_forall_run_filed` — a change need not keep the key.
-/
import Groundwork.Pipeline.Results
import Groundwork.Proofs.Table.Lookup

set_option relaxedAutoImplicit false
set_option autoImplicit false

namespace Groundwork.Results

variable {R : Type} [Keyed R]

/-! ### Changes -/

/-- A change of a store of results. -/
inductive Operation (R : Type) where
  /-- Stores a result under its key. -/
  | add (r : R)
  /-- Stores results in turn. -/
  | addAll (l : List R)
  /-- Puts what the function makes of the result under the key in its place. -/
  | update (k : ResultKey) (f : Option R → Option R)

/-- The store after a change. -/
def Operation.perform : Operation R → Results R → Results R
  | add r, s => s.add r
  | addAll l, s => s.addAll l
  | update k f, s => s.update k f

/-- The store after changes in turn. -/
def run (ops : List (Operation R)) (s : Results R) : Results R :=
  ops.foldl (fun s op => op.perform s) s

/-! ### Lookups -/

theorem get?_add (s : Results R) (r : R) (k : ResultKey) :
    (s.add r).get? k = if Keyed.key r = k then some r else s.get? k :=
  Table.get?_insert s.table (Keyed.key r) k r

omit [Keyed R] in
theorem get?_update (s : Results R) (k : ResultKey) (f : Option R → Option R) (k' : ResultKey) :
    (s.update k f).get? k' = if k = k' then f (s.get? k) else s.get? k' := by
  unfold update
  split
  case h_1 r hr =>
      rw [hr]
      exact Table.get?_insert s.table k k' r
  case h_2 hnone =>
      rw [hnone]
      exact Table.get?_erase s.table k k'

/-! ### Stores with every result under its own key -/

/-- Every result is stored under its own key. -/
def Filed (s : Results R) : Prop := ∀ k r, s.get? k = some r → Keyed.key r = k

theorem filed_empty : ({} : Results R).Filed := by
  intro k r hr
  cases hr

theorem Filed.add {s : Results R} (hs : s.Filed) (r : R) : (s.add r).Filed := by
  intro k r' hr'
  rw [get?_add] at hr'
  split at hr'
  case isTrue hk =>
      cases hr'
      exact hk
  case isFalse => exact hs k r' hr'

theorem Filed.addAll {s : Results R} (hs : s.Filed) (l : List R) : (s.addAll l).Filed := by
  induction l generalizing s with
  | nil => exact hs
  | cons r l ih => exact ih (hs.add r)

/-- The change gives back nothing, or a result of the key that it is made for. -/
def Operation.Keeps (s : Results R) : Operation R → Prop
  | add _ => True
  | addAll _ => True
  | update k f => ∀ r, f (s.get? k) = some r → Keyed.key r = k

/-- **A change leaves every result under its own key exactly if it keeps the key.** -/
theorem filed_perform_iff {s : Results R} (hs : s.Filed) (op : Operation R) :
    (op.perform s).Filed ↔ op.Keeps s := by
  cases op with
  | add r => exact iff_of_true (hs.add r) trivial
  | addAll l => exact iff_of_true (hs.addAll l) trivial
  | update k f =>
      change (s.update k f).Filed ↔ ∀ r, f (s.get? k) = some r → Keyed.key r = k
      constructor
      · intro h r hr
        refine h k r ?_
        rw [get?_update, if_pos rfl, hr]
      · intro h k' r hr
        rw [get?_update] at hr
        split at hr
        case isTrue hk => exact hk ▸ h r hr
        case isFalse => exact hs k' r hr

/-- Every change keeps the key, in the store that it meets. -/
def Kept : Results R → List (Operation R) → Prop
  | _, [] => True
  | s, op :: ops => op.Keeps s ∧ Kept (op.perform s) ops

/-- Results stay under their own keys all along exactly if every change keeps the key. -/
theorem Filed.run_iff {s : Results R} (hs : s.Filed) (ops : List (Operation R)) :
    (∀ before, before <+: ops → (run before s).Filed) ↔ Kept s ops := by
  induction ops generalizing s with
  | nil =>
      refine iff_of_true (fun before hbefore => ?_) trivial
      rw [List.prefix_nil.1 hbefore]
      exact hs
  | cons op ops ih =>
      constructor
      · intro h
        have hfirst : (op.perform s).Filed := h [op] ⟨ops, rfl⟩
        refine ⟨(filed_perform_iff hs op).1 hfirst, (ih hfirst).1 fun before hbefore => ?_⟩
        exact h (op :: before) (List.cons_prefix_cons.2 ⟨rfl, hbefore⟩)
      · rintro ⟨hkeeps, hkept⟩ before hbefore
        cases before with
        | nil => exact hs
        | cons op' before =>
            obtain ⟨rfl, hrest⟩ := List.cons_prefix_cons.1 hbefore
            exact (ih ((filed_perform_iff hs op').2 hkeeps)).2 hkept before hrest

/-! ### Queries -/

section Queries

variable {s : Results R}

theorem Filed.key_eq (hs : s.Filed) {e : ResultKey × R} (he : e ∈ s.table.toList) :
    Keyed.key e.2 = e.1 :=
  hs e.1 e.2 (Table.get?_eq_some_iff.2 he)

/-- Every result is found by its own key. -/
theorem Filed.get?_key (hs : s.Filed) {r : R} (hr : r ∈ s.list) :
    s.get? (Keyed.key r) = some r := by
  obtain ⟨k, hk⟩ := Table.mem_values_iff.1 hr
  rw [hs k r hk]
  exact hk

/-- The results of a kind are those that are stored under a key of this kind, in the order of their
keys. -/
theorem Filed.ofKind_eq (hs : s.Filed) (kind : String) :
    s.ofKind kind = (s.table.toList.filter fun e => e.1.kind == kind).map Prod.snd := by
  change (s.table.toList.map Prod.snd).filter _ = _
  rw [List.filter_map]
  refine congrArg (List.map Prod.snd) (List.filter_congr fun e he => ?_)
  rw [Function.comp_apply, hs.key_eq he]

/-- The results are listed in the order of their own keys. -/
theorem Filed.list_sorted (hs : s.Filed) :
    s.list.Pairwise fun a b => compare (Keyed.key a) (Keyed.key b) = .lt := by
  refine List.pairwise_map.2 (s.table.sorted.imp_of_mem ?_)
  intro a b ha hb hlt
  rw [hs.key_eq ha, hs.key_eq hb]
  exact hlt

end Queries

/-- **Results stay under their own keys exactly as long as every change keeps the key.**  Such a run
leads to a store where each result is found by its own key, and where the results of a kind are
those that are stored under a key of this kind, in the order of their keys. -/
theorem filed_run_iff (ops : List (Operation R)) :
    ((∀ before, before <+: ops → (run before {}).Filed) ↔ Kept {} ops) ∧
      (Kept {} ops →
        (∀ r ∈ (run ops {}).list, (run ops {}).get? (Keyed.key r) = some r) ∧
        ∀ kind, (run ops {}).ofKind kind =
            ((run ops {}).table.toList.filter fun e => e.1.kind == kind).map Prod.snd ∧
          ((run ops {}).ofKind kind).Pairwise
            fun a b => compare (Keyed.key a) (Keyed.key b) = .lt) := by
  refine ⟨filed_empty.run_iff ops, fun hkept => ?_⟩
  have hs : (run ops {}).Filed := (filed_empty.run_iff ops).2 hkept ops List.prefix_rfl
  refine ⟨fun r hr => hs.get?_key hr, fun kind => ⟨hs.ofKind_eq kind, ?_⟩⟩
  exact hs.list_sorted.filter _

/-- A result that is nothing but its key. -/
structure Bare where
  key : ResultKey
deriving DecidableEq

instance : Keyed Bare := ⟨Bare.key⟩

/-- A result that is added and then taken up without a change keeps its key. -/
theorem filed_run_iff_same :
    let r : Bare := ⟨⟨"unit", "main"⟩⟩
    let ops : List (Operation Bare) := [.add r, .update r.key id]
    Kept {} ops ∧ (run ops {}).get? r.key = some r := by
  intro r ops
  have hkept : Kept {} ops := by
    refine ⟨trivial, ?_, trivial⟩
    intro r' hr'
    have hsame : (({} : Results Bare).add r).get? (Keyed.key r) = some r' := hr'
    rw [get?_add, if_pos rfl] at hsame
    cases hsame
    rfl
  obtain ⟨-, hqueries⟩ := filed_run_iff ops
  exact ⟨hkept, (hqueries hkept).1 r (by decide)⟩

/-- A change may put a result with another key in the place of what is there.  The result is then
listed, but is not found by its own key, and it comes first among the results of its kind although
there is one with a lower key. -/
theorem not_forall_run_filed :
    (¬ ∀ ops : List (Operation Bare), (run ops {}).Filed ∧
      ∀ r ∈ (run ops {}).list, (run ops {}).get? r.key = some r) ∧
    let low : Bare := ⟨⟨"table", "a"⟩⟩
    let high : Bare := ⟨⟨"table", "z"⟩⟩
    let s := run [.add low, .update ⟨"entry", "main"⟩ fun _ => some high] {}
    s.get? high.key = none ∧ s.ofKind "table" = [high, low] := by
  refine ⟨fun h => ?_, by decide⟩
  obtain ⟨hfiled, -⟩ := h [.update ⟨"entry", "main"⟩ fun _ => some ⟨⟨"table", "z"⟩⟩]
  exact absurd (hfiled ⟨"entry", "main"⟩ ⟨⟨"table", "z"⟩⟩ (by decide)) (by decide)

end Groundwork.Results
