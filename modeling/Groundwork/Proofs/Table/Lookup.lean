/-
What a table answers after each change.

A table is a list of entries in key order, but nothing outside of this module needs to know it:
a table is determined by its answers to `Table.get?`, and each operation is described by what it
does to these answers.

Main results:

* `Groundwork.Table.get?_eq_some_iff` — a lookup finds exactly the entries of the list;
* `Groundwork.Table.get?_insert`, `Groundwork.Table.get?_insertIfNew`,
  `Groundwork.Table.get?_filter`, `Groundwork.Table.get?_erase`, `Groundwork.Table.get?_map`,
  `Groundwork.Table.get?_insertMany_toList`, `Groundwork.Table.get?_insertMany_map` — lookups after
  writing, selecting, removing, mapping and merging;
* `Groundwork.Table.contains_iff`, `Groundwork.Table.mem_keys_iff` — the keys are those that have
  a value;
* `Groundwork.Table.keys_nodup` — no key is listed twice;
* `Groundwork.Table.ext_get?` — **tables with the same answers are the same**;
* `Groundwork.Table.get?_ofList`, `Groundwork.Table.ofList_toList` — a table made from a list.
-/
import Groundwork.Table
import Mathlib.Data.List.Induction
import Mathlib.Data.List.Nodup

set_option relaxedAutoImplicit false
set_option autoImplicit false

namespace Groundwork.Table

variable {κ ν μ : Type} [Ord κ] [Std.LawfulEqOrd κ]

/-! ### Entries -/

/-- No key is listed twice. -/
theorem keys_nodup (t : Table κ ν) : t.keys.Nodup := by
  refine List.pairwise_map.2 (t.sorted.imp ?_)
  intro a b hlt heq
  rw [heq, Std.ReflOrd.compare_self] at hlt
  cases hlt

/-- Entries with the same key are the same. -/
theorem eq_of_mem_entries {t : Table κ ν} {e f : κ × ν} (he : e ∈ t.entries) (hf : f ∈ t.entries)
    (h : e.1 = f.1) : e = f :=
  List.inj_on_of_nodup_map t.keys_nodup he hf h

/-- A lookup finds exactly the entries. -/
theorem get?_eq_some_iff {t : Table κ ν} {k : κ} {v : ν} :
    t.get? k = some v ↔ (k, v) ∈ t.entries := by
  rw [get?, Option.map_eq_some_iff]
  constructor
  · rintro ⟨e, hfind, rfl⟩
    have hk : e.1 = k := by simpa using List.find?_some hfind
    exact hk ▸ List.mem_of_find?_eq_some hfind
  · intro hmem
    have hsome : (t.entries.find? fun e => compare e.1 k == .eq).isSome := by
      rw [List.find?_isSome]
      exact ⟨_, hmem, by simp⟩
    obtain ⟨e, hfind⟩ := Option.isSome_iff_exists.1 hsome
    have hk : e.1 = k := by simpa using List.find?_some hfind
    have he : e = (k, v) := eq_of_mem_entries (List.mem_of_find?_eq_some hfind) hmem hk
    exact ⟨e, hfind, by rw [he]⟩

theorem get?_congr {t : Table κ ν} {t' : Table κ μ} {k k' : κ} {f : μ → ν}
    (h : ∀ v, (k, v) ∈ t.entries ↔ ∃ w, (k', w) ∈ t'.entries ∧ f w = v) :
    t.get? k = (t'.get? k').map f := by
  ext v
  simp only [get?_eq_some_iff, Option.map_eq_some_iff, h]

/-! ### Keys -/

theorem contains_iff_exists_mem {t : Table κ ν} {k : κ} :
    t.contains k = true ↔ ∃ v, (k, v) ∈ t.entries := by
  simp [contains]

/-- A key is in a table exactly if it has a value. -/
theorem contains_iff {t : Table κ ν} {k : κ} : t.contains k = true ↔ ∃ v, t.get? k = some v := by
  simp only [contains_iff_exists_mem, get?_eq_some_iff]

theorem contains_eq_isSome (t : Table κ ν) (k : κ) : t.contains k = (t.get? k).isSome := by
  rw [Bool.eq_iff_iff, contains_iff, Option.isSome_iff_exists]

/-- The listed keys are those in the table. -/
theorem mem_keys_iff {t : Table κ ν} {k : κ} : k ∈ t.keys ↔ t.contains k = true := by
  simp [keys, contains_iff_exists_mem]

theorem mem_values_of_get? {t : Table κ ν} {k : κ} {v : ν} (h : t.get? k = some v) :
    v ∈ t.values :=
  List.mem_map.2 ⟨(k, v), get?_eq_some_iff.1 h, rfl⟩

theorem mem_values_iff {t : Table κ ν} {v : ν} : v ∈ t.values ↔ ∃ k, t.get? k = some v := by
  constructor
  · intro h
    obtain ⟨e, he, rfl⟩ := List.mem_map.1 h
    exact ⟨e.1, get?_eq_some_iff.2 he⟩
  · rintro ⟨k, h⟩
    exact mem_values_of_get? h

/-! ### Changes -/

omit [Std.LawfulEqOrd κ] in
@[simp] theorem get?_empty (k : κ) : (∅ : Table κ ν).get? k = none := rfl

omit [Std.LawfulEqOrd κ] in
theorem mem_insertEntry_self (k : κ) (v : ν) (l : List (κ × ν)) : (k, v) ∈ insertEntry k v l := by
  induction l with
  | nil => simp [insertEntry]
  | cons e l ih =>
      rw [insertEntry]
      split <;> simp [ih]

theorem mem_insertEntry_of_ne {k k' : κ} {v v' : ν} {l : List (κ × ν)} (hne : k ≠ k') :
    (k', v') ∈ insertEntry k v l ↔ (k', v') ∈ l := by
  induction l with
  | nil => simp [insertEntry, hne.symm]
  | cons e l ih =>
      obtain ⟨a, b⟩ := e
      rw [insertEntry]
      split
      case h_1 => simp [hne.symm]
      case h_2 heq =>
          have hk : k = a := Std.LawfulEqOrd.eq_of_compare heq
          simp [hne.symm, ← hk]
      case h_3 => simp [ih]

/-- A written value is found under its key, and every other key keeps its value. -/
theorem get?_insert [Std.TransOrd κ] [DecidableEq κ] (t : Table κ ν) (k k' : κ) (v : ν) :
    (t.insert k v).get? k' = if k = k' then some v else t.get? k' := by
  split
  case isTrue h =>
      rw [← h, get?_eq_some_iff]
      exact mem_insertEntry_self k v t.entries
  case isFalse h =>
      ext v'
      rw [get?_eq_some_iff, get?_eq_some_iff]
      exact mem_insertEntry_of_ne h

theorem get?_filter (t : Table κ ν) (p : κ → ν → Bool) (k : κ) :
    (t.filter p).get? k = (t.get? k).filter (p k) := by
  ext v
  simp [get?_eq_some_iff, filter, Option.filter_eq_some_iff]

/-- A removed key has no value, and every other key keeps its value. -/
theorem get?_erase [DecidableEq κ] (t : Table κ ν) (k k' : κ) :
    (t.erase k).get? k' = if k = k' then none else t.get? k' := by
  rw [erase, get?_filter]
  split
  case isTrue h => simp [h]
  case isFalse h =>
      have hp : (compare k' k != .eq) = true := by simpa using Ne.symm h
      cases t.get? k' <;> simp [hp]

theorem get?_map (t : Table κ ν) (f : κ → ν → μ) (k : κ) :
    (t.map f).get? k = (t.get? k).map (f k) :=
  get?_congr fun v => by simp [map]

/-- The entries of another table win over those that were there. -/
theorem get?_insertMany_toList [Std.TransOrd κ] [DecidableEq κ] (t u : Table κ ν) (k : κ) :
    (t.insertMany u.toList).get? k = (u.get? k).or (t.get? k) := by
  have hfold : ∀ (l : List (κ × ν)), (l.map Prod.fst).Nodup → ∀ (t : Table κ ν) (o : Option ν),
      (∀ v, o = some v ↔ (k, v) ∈ l) → (t.insertMany l).get? k = o.or (t.get? k) := by
    intro l
    induction l with
    | nil =>
        intro _ t o ho
        have hnone : o = none := Option.eq_none_iff_forall_ne_some.2 fun v hv =>
          absurd ((ho v).1 hv) List.not_mem_nil
        rw [hnone]
        rfl
    | cons e l ih =>
        intro hnodup t o ho
        rw [List.map_cons, List.nodup_cons] at hnodup
        change ((t.insert e.1 e.2).insertMany l).get? k = _
        by_cases hk : e.1 = k
        · -- the keys differ, so no later entry replaces this one
          have hlater : ∀ v, none = some v ↔ (k, v) ∈ l := fun v =>
            ⟨fun h => (nomatch h), fun h => absurd (List.mem_map.2 ⟨_, h, hk.symm⟩) hnodup.1⟩
          have hfound : o = some e.2 := (ho e.2).2 (by rw [← hk]; exact List.mem_cons_self)
          rw [ih hnodup.2 _ none hlater, get?_insert, if_pos hk, hfound]
          rfl
        · have hlater : ∀ v, o = some v ↔ (k, v) ∈ l := by
            intro v
            rw [ho v, List.mem_cons, or_iff_right]
            rintro rfl
            exact hk rfl
          rw [ih hnodup.2 _ o hlater, get?_insert, if_neg hk]
  exact hfold u.toList u.keys_nodup t (u.get? k) fun v => get?_eq_some_iff

/-- One value is written under each key of a list. -/
theorem get?_insertMany_map [Std.TransOrd κ] [DecidableEq κ] (t : Table κ ν) (l : List κ) (v : ν)
    (k : κ) : (t.insertMany (l.map (·, v))).get? k = if k ∈ l then some v else t.get? k := by
  induction l generalizing t with
  | nil => rfl
  | cons a l ih =>
      change ((t.insert a v).insertMany (l.map (·, v))).get? k = _
      rw [ih, get?_insert]
      by_cases hk : a = k
      · simp [hk]
      · simp [hk, Ne.symm hk]

/-- A value is written only where there was none. -/
theorem get?_insertIfNew [Std.TransOrd κ] [DecidableEq κ] (t : Table κ ν) (k k' : κ) (v : ν) :
    (t.insertIfNew k v).get? k' = (t.get? k').or (if k = k' then some v else none) := by
  unfold insertIfNew
  split
  case isTrue h =>
      obtain ⟨w, hw⟩ := contains_iff.1 h
      by_cases hk : k = k'
      · subst hk
        rw [hw, Option.some_or]
      · rw [if_neg hk, Option.or_none]
  case isFalse h =>
      rw [get?_insert]
      by_cases hk : k = k'
      · subst hk
        have hnone : t.get? k = none := by
          rw [← Option.not_isSome_iff_eq_none, ← contains_eq_isSome]
          exact h
        rw [if_pos rfl, if_pos rfl, hnone, Option.none_or]
      · rw [if_neg hk, if_neg hk, Option.or_none]

/-- The entries of another table are added where there was none. -/
theorem get?_foldl_insertIfNew_toList [Std.TransOrd κ] [DecidableEq κ] (t u : Table κ ν) (k : κ) :
    (u.toList.foldl (fun t e => t.insertIfNew e.1 e.2) t).get? k = (t.get? k).or (u.get? k) := by
  have hfold : ∀ (l : List (κ × ν)) (t : Table κ ν),
      (l.foldl (fun t e => t.insertIfNew e.1 e.2) t).get? k =
        (t.get? k).or ((l.find? fun e => compare e.1 k == .eq).map (·.2)) := by
    intro l
    induction l with
    | nil => intro t; simp
    | cons e l ih =>
        intro t
        rw [List.foldl_cons, ih, get?_insertIfNew, Option.or_assoc]
        by_cases hk : e.1 = k
        · rw [if_pos hk, List.find?_cons_of_pos (by simpa using hk)]
          rfl
        · rw [if_neg hk, List.find?_cons_of_neg (by simpa using hk), Option.none_or]
  exact hfold u.toList t

/-- The values are those of the keys, in the order of the keys. -/
theorem map_get?_keys (t : Table κ ν) : t.keys.map t.get? = t.values.map some := by
  rw [keys, values, List.map_map, List.map_map]
  exact List.map_congr_left fun e he => get?_eq_some_iff.2 he

theorem contains_insert [Std.TransOrd κ] [DecidableEq κ] (t : Table κ ν) (k k' : κ) (v : ν) :
    (t.insert k v).contains k' = (decide (k = k') || t.contains k') := by
  rw [contains_eq_isSome, get?_insert, contains_eq_isSome]
  split <;> simp_all

theorem contains_erase [DecidableEq κ] (t : Table κ ν) (k k' : κ) :
    (t.erase k).contains k' = (decide (k ≠ k') && t.contains k') := by
  rw [contains_eq_isSome, get?_erase, contains_eq_isSome]
  split <;> simp_all

/-! ### Tables and lists -/

/-- Tables with the same answers are the same. -/
theorem ext_get? [Std.TransOrd κ] {t u : Table κ ν} (h : ∀ k, t.get? k = u.get? k) : t = u := by
  have hmem : ∀ e : κ × ν, e ∈ t.entries ↔ e ∈ u.entries := by
    intro e
    rw [← get?_eq_some_iff (k := e.1), ← get?_eq_some_iff (k := e.1), h]
  have hperm : t.entries.Perm u.entries :=
    (List.perm_ext_iff_of_nodup (List.Nodup.of_map Prod.fst t.keys_nodup)
      (List.Nodup.of_map Prod.fst u.keys_nodup)).2 hmem
  have hentries : t.entries = u.entries := by
    refine hperm.eq_of_pairwise (fun a b _ _ hab hba => ?_) t.sorted u.sorted
    exact absurd (Std.TransCmp.lt_trans hab hba) (by simp)
  cases t
  cases u
  cases hentries
  rfl

theorem get?_ofList_concat [Std.TransOrd κ] [DecidableEq κ] (l : List (κ × ν)) (e : κ × ν) (k : κ) :
    (ofList (l ++ [e])).get? k = if e.1 = k then some e.2 else (ofList l).get? k := by
  have hfold : ofList (l ++ [e]) = (ofList l).insert e.1 e.2 := List.foldl_append
  rw [hfold, get?_insert]

/-- A table made from a list has no entries beside those of the list. -/
theorem mem_of_get?_ofList [Std.TransOrd κ] [DecidableEq κ] {l : List (κ × ν)} {k : κ} {v : ν}
    (h : (ofList l).get? k = some v) : (k, v) ∈ l := by
  induction l using List.reverseRecOn with
  | nil => cases h
  | append_singleton l e ih =>
      rw [get?_ofList_concat] at h
      split at h
      case isTrue hk =>
          subst hk
          rw [← Option.some_inj.1 h]
          exact List.mem_append_right l (List.mem_singleton_self e)
      case isFalse => exact List.mem_append_left _ (ih h)

/-- The keys of a table made from a list are those of the list. -/
theorem contains_ofList [Std.TransOrd κ] [DecidableEq κ] {l : List (κ × ν)} {e : κ × ν}
    (h : e ∈ l) : (ofList l).contains e.1 = true := by
  rw [contains_iff]
  induction l using List.reverseRecOn with
  | nil => cases h
  | append_singleton l f ih =>
      rw [get?_ofList_concat]
      split
      case isTrue => exact ⟨_, rfl⟩
      case isFalse hk =>
          obtain hl | hf := List.mem_append.1 h
          · exact ih hl
          · exact absurd (congrArg Prod.fst (List.mem_singleton.1 hf)).symm hk

/-- If a list has one value for each key, the table made from it has the entries of the list. -/
theorem get?_ofList [Std.TransOrd κ] [DecidableEq κ] {l : List (κ × ν)}
    (h : ∀ e ∈ l, ∀ f ∈ l, e.1 = f.1 → e = f) {k : κ} {v : ν} :
    (ofList l).get? k = some v ↔ (k, v) ∈ l := by
  refine ⟨mem_of_get?_ofList, fun hmem => ?_⟩
  obtain ⟨w, hw⟩ := contains_iff.1 (contains_ofList hmem)
  have heq := h _ (mem_of_get?_ofList hw) _ hmem rfl
  rwa [(Prod.mk.inj heq).2] at hw

/-- A table is made from its own entries. -/
theorem ofList_toList [Std.TransOrd κ] [DecidableEq κ] (t : Table κ ν) : ofList t.toList = t := by
  refine ext_get? fun k => ?_
  have hmany := get?_insertMany_toList (empty : Table κ ν) t k
  rw [show (empty : Table κ ν).get? k = none from rfl, Option.or_none] at hmany
  exact hmany

end Groundwork.Table
