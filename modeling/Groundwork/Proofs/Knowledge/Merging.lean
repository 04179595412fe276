/-
Merges of knowledge bases.

A merge takes over what is missing and keeps what is there, in both tables, and a conflict about one
link stops nothing else.  Lookups after a merge fall back from the first knowledge base to the
second, so the bracketing of several merges plays no role, and neither does their order as long as
no two providers know the same link or the same type.

Main definitions:

* `Groundwork.KnowledgeBase.conflicts` — the links that two knowledge bases have in common;
* `Groundwork.KnowledgeBase.Apart` — two knowledge bases have no link and no type in common;
* `Groundwork.MergePlan` — a way to merge several providers, in some order and with some bracketing.

Main results:

* `Groundwork.KnowledgeBase.result_merge` — a merge reports every conflict once, in order;
* `Groundwork.MergePlan.entry?_merged`, `Groundwork.MergePlan.get?_factories_merged` — the first
  provider that knows a link or a type decides;
* `Groundwork.KnowledgeBase.merge_leftBiased` — **a merge is the union of both tables in which the
  first one wins**, and merging is associative, and commutative where there are no conflicts.
-/
import Groundwork.Proofs.Knowledge.Building

set_option relaxedAutoImplicit false
set_option autoImplicit false

namespace Groundwork

/-! ### At most one answer -/

section FindSome

variable {α β : Type} {f : α → Option β} {l l' : List α}

/-- If at most one element of a list has an answer, every answer is the first one. -/
theorem findSome?_eq_some_of_mem (h : l.Pairwise fun a b => f a = none ∨ f b = none) {a : α} {b : β}
    (ha : a ∈ l) (hb : f a = some b) : l.findSome? f = some b := by
  induction l with
  | nil => exact absurd ha List.not_mem_nil
  | cons c l ih =>
      rw [List.pairwise_cons] at h
      rw [List.findSome?_cons]
      rcases List.mem_cons.1 ha with rfl | ha
      · rw [hb]
      · have hc : f c = none := (h.1 a ha).resolve_right (by rw [hb]; exact Option.some_ne_none b)
        rw [hc]
        exact ih h.2 ha

/-- If at most one element of a list has an answer, the order of the list plays no role. -/
theorem findSome?_eq_of_perm (hperm : l.Perm l')
    (h : l.Pairwise fun a b => f a = none ∨ f b = none) : l.findSome? f = l'.findSome? f := by
  have h' : l'.Pairwise fun a b => f a = none ∨ f b = none := hperm.pairwise h Or.symm
  ext b
  constructor
  · intro hb
    obtain ⟨a, ha, hab⟩ := List.exists_of_findSome?_eq_some hb
    exact findSome?_eq_some_of_mem h' (hperm.mem_iff.1 ha) hab
  · intro hb
    obtain ⟨a, ha, hab⟩ := List.exists_of_findSome?_eq_some hb
    exact findSome?_eq_some_of_mem h (hperm.mem_iff.2 ha) hab

end FindSome

namespace KnowledgeBase

variable {kb other third : KnowledgeBase}

/-! ### Conflicts -/

/-- The links that both knowledge bases have entries for, in order. -/
def conflicts (kb other : KnowledgeBase) : List Link := other.links.filter kb.hasEntry

theorem mem_conflicts_iff {l : Link} :
    l ∈ kb.conflicts other ↔ kb.hasEntry l = true ∧ other.hasEntry l = true := by
  rw [conflicts, List.mem_filter, links, Table.mem_keys_iff]
  exact and_comm

theorem conflicts_increase (kb other : KnowledgeBase) :
    (kb.conflicts other).Pairwise fun a b => compare a b = .lt :=
  List.Pairwise.filter _ (List.pairwise_map.2 other.entries.sorted)

/-- The failure that reports a link with an entry already. -/
def duplicate (l : Link) : Fault := .duplicateEntry l.source l.target

/-- Of entries that are added in turn, those are refused that were there before. -/
theorem faults_foldl_add (l : List (Link × LinkEntry)) (hl : (l.map Prod.fst).Nodup)
    (kb : KnowledgeBase) (faults : Faults) :
    (l.foldl (fun (r : KnowledgeBase × Faults) e =>
      ((r.1.add e.1 e.2).1, r.2.pushResult (r.1.add e.1 e.2).2)) (kb, faults)).2.list =
      faults.list ++ ((l.map Prod.fst).filter kb.hasEntry).map duplicate := by
  induction l generalizing kb faults with
  | nil => simp
  | cons e l ih =>
      rw [List.map_cons, List.nodup_cons] at hl
      rw [List.foldl_cons, ih hl.2, List.map_cons]
      by_cases he : kb.hasEntry e.1 = true
      · have hadd : kb.add e.1 e.2 = (kb, .error (duplicate e.1)) := if_pos he
        rw [List.filter_cons_of_pos he, hadd]
        simp [Faults.pushResult, Faults.push, Fault.parts, duplicate]
      · have hadd : kb.add e.1 e.2 = ({ kb with entries := kb.entries.insert e.1 e.2 }, .ok ()) :=
          if_neg he
        rw [List.filter_cons_of_neg he, hadd]
        -- the keys differ, so the new entry is none of those still to be added
        have hrest : (l.map Prod.fst).filter (KnowledgeBase.hasEntry
              { kb with entries := kb.entries.insert e.1 e.2 }) =
            (l.map Prod.fst).filter kb.hasEntry := by
          refine List.filter_congr fun x hx => ?_
          have hne : e.1 ≠ x := fun heq => hl.1 (heq ▸ hx)
          rw [hasEntry, Table.contains_insert, decide_eq_false hne, Bool.false_or, hasEntry]
        rw [hrest]
        rfl

/-- **A merge reports every conflict once, in order.** -/
theorem result_merge (kb other : KnowledgeBase) :
    (kb.merge other).2 = Faults.result ⟨(kb.conflicts other).map duplicate⟩ := by
  have hlist := faults_foldl_add other.entries.toList other.entries.keys_nodup kb {}
  rw [List.nil_append] at hlist
  exact congrArg (fun l => Faults.result ⟨l⟩) hlist

/-- A merge succeeds exactly without conflicts. -/
theorem merge_eq_ok_iff :
    (kb.merge other).2 = .ok () ↔ ∀ l, ¬ (kb.hasEntry l = true ∧ other.hasEntry l = true) := by
  rw [result_merge, Faults.result_eq_ok_iff, List.map_eq_nil_iff, List.eq_nil_iff_forall_not_mem]
  simp only [mem_conflicts_iff]

/-! ### Unions -/

/-- **Merging is associative.** -/
theorem merge_merge (kb other third : KnowledgeBase) :
    ((kb.merge other).1.merge third).1 = (kb.merge (other.merge third).1).1 := by
  refine ext_lookups (fun l => ?_) fun t => ?_
  · simp only [entry?_merge, Option.or_assoc]
  · simp only [get?_factories_merge, Option.or_assoc]

/-- The knowledge bases have no link and no type in common. -/
structure Apart (kb other : KnowledgeBase) : Prop where
  links : ∀ l, kb.entry? l = none ∨ other.entry? l = none
  forms : ∀ t, kb.factories.get? t = none ∨ other.factories.get? t = none

end KnowledgeBase

/-! ### Several merges -/

/-- A way to merge several providers. -/
inductive MergePlan where
  /-- One provider is taken as it is. -/
  | provider (kb : KnowledgeBase)
  /-- What comes of the second plan is merged into what comes of the first one. -/
  | join (first second : MergePlan)

namespace MergePlan

/-- The providers, from left to right. -/
def providers : MergePlan → List KnowledgeBase
  | provider kb => [kb]
  | join a b => a.providers ++ b.providers

/-- What comes of the plan. -/
def merged : MergePlan → KnowledgeBase
  | provider kb => kb
  | join a b => (a.merged.merge b.merged).1

/-- The first provider that knows a link decides. -/
theorem entry?_merged (plan : MergePlan) (l : Link) :
    plan.merged.entry? l = plan.providers.findSome? fun kb => kb.entry? l := by
  induction plan with
  | provider kb => simp [merged, providers]
  | join a b iha ihb =>
      rw [merged, providers, List.findSome?_append, ← iha, ← ihb]
      exact KnowledgeBase.entry?_merge _ _ l

/-- The first provider that knows a type decides. -/
theorem get?_factories_merged (plan : MergePlan) (t : TypeTag) :
    plan.merged.factories.get? t = plan.providers.findSome? fun kb => kb.factories.get? t := by
  induction plan with
  | provider kb => simp [merged, providers]
  | join a b iha ihb =>
      rw [merged, providers, List.findSome?_append, ← iha, ← ihb]
      exact KnowledgeBase.get?_factories_merge _ _ t

/-- Where no two providers have anything in common, neither order nor bracketing plays a role. -/
theorem merged_eq_of_perm {a b : MergePlan} (hperm : a.providers.Perm b.providers)
    (hapart : a.providers.Pairwise KnowledgeBase.Apart) : a.merged = b.merged := by
  refine KnowledgeBase.ext_lookups (fun l => ?_) fun t => ?_
  · rw [entry?_merged, entry?_merged]
    exact findSome?_eq_of_perm hperm (hapart.imp fun h => h.links l)
  · rw [get?_factories_merged, get?_factories_merged]
    exact findSome?_eq_of_perm hperm (hapart.imp fun h => h.forms t)

end MergePlan

namespace KnowledgeBase

/-- **A merge is the union of both tables in which the first one wins.**  Every link that both have
is reported once, in order, and nothing else is.  So merging is associative, and for providers that
have no link and no type in common every order of the merges gives the same tables. -/
theorem merge_leftBiased (kb other : KnowledgeBase) :
    (∀ l, (kb.merge other).1.entries.get? l = (kb.entries.get? l).or (other.entries.get? l)) ∧
    (∀ t, (kb.merge other).1.factories.get? t =
      (kb.factories.get? t).or (other.factories.get? t)) ∧
    (∃ common : List Link, common.Pairwise (fun a b => compare a b = .lt) ∧
      (∀ l, l ∈ common ↔ kb.hasEntry l = true ∧ other.hasEntry l = true) ∧
      (kb.merge other).2 =
        Faults.result ⟨common.map fun l => .duplicateEntry l.source l.target⟩) ∧
    ((kb.merge other).2 = .ok () ↔ ∀ l, ¬ (kb.hasEntry l = true ∧ other.hasEntry l = true)) ∧
    (∀ third, ((kb.merge other).1.merge third).1 = (kb.merge (other.merge third).1).1) ∧
    ∀ a b : MergePlan, a.providers.Perm b.providers → a.providers.Pairwise Apart →
      a.merged = b.merged :=
  ⟨entry?_merge kb other, get?_factories_merge kb other,
    ⟨kb.conflicts other, conflicts_increase kb other, fun _ => mem_conflicts_iff,
      result_merge kb other⟩,
    merge_eq_ok_iff, merge_merge kb other, fun _ _ => MergePlan.merged_eq_of_perm⟩

/-- A provider that links one type to another. -/
def supplier (source target : String) : KnowledgeBase :=
  (({} : KnowledgeBase).addForms ⟨"test", source, true⟩ ⟨"test", target, true⟩ {}).1

theorem apart_supplier {a b c d : String}
    (h : ∀ x ∈ [a, b], ∀ y ∈ [c, d], (⟨"test:" ++ x⟩ : TypeTag) ≠ ⟨"test:" ++ y⟩) :
    (supplier a b).Apart (supplier c d) := by
  have hac := h a (by simp) c (by simp)
  have had := h a (by simp) d (by simp)
  have hbc := h b (by simp) c (by simp)
  have hbd := h b (by simp) d (by simp)
  constructor
  case links =>
      intro l
      have hlink (x y : String) : KnowledgeBase.entry? (supplier x y) l =
          if ⟨⟨"test:" ++ x⟩, ⟨"test:" ++ y⟩⟩ = l then some {} else none :=
        entry?_addForms _ _ _ _ l
      grind
  case forms =>
      intro t
      have hform (x y : String) : (supplier x y).factories.get? t =
          if ⟨"test:" ++ y⟩ = t then some ⟨"test", y, true⟩
          else if ⟨"test:" ++ x⟩ = t then some ⟨"test", x, true⟩ else none :=
        get?_factories_addForms _ _ _ _ t
      grind

theorem apart_suppliers :
    [supplier "a" "b", supplier "c" "d", supplier "e" "f"].Pairwise Apart := by
  simp only [List.pairwise_cons, List.mem_cons, List.not_mem_nil, or_false, forall_eq_or_imp,
    forall_eq]
  exact ⟨⟨apart_supplier (by decide), apart_supplier (by decide)⟩, apart_supplier (by decide),
    nofun, .nil⟩

/-- Three providers are merged in two ways. -/
theorem merge_leftBiased_suppliers :
    ((supplier "a" "b").merge ((supplier "c" "d").merge (supplier "e" "f")).1).1 =
      (((supplier "e" "f").merge (supplier "a" "b")).1.merge (supplier "c" "d")).1 := by
  obtain ⟨-, -, -, -, -, hplans⟩ := merge_leftBiased {} {}
  -- for any providers, so that no two of these are compared
  have hperm (x y z : KnowledgeBase) : ([x] ++ ([y] ++ [z])).Perm (([z] ++ [x]) ++ [y]) :=
    List.perm_append_singleton z [x, y]
  exact hplans
    (.join (.provider (supplier "a" "b"))
      (.join (.provider (supplier "c" "d")) (.provider (supplier "e" "f"))))
    (.join (.join (.provider (supplier "e" "f")) (.provider (supplier "a" "b")))
      (.provider (supplier "c" "d")))
    (hperm _ _ _) apart_suppliers

end KnowledgeBase

end Groundwork
