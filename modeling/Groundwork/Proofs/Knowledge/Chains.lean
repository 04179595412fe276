/-
Chains of types.

The search for chains walks along the links of a knowledge base and carries the types behind it,
the latest first.  Whatever it finds leads from the first type to the last one along links that
admit the last type, and enters no type twice.

Main definitions:

* `Groundwork.KnowledgeBase.Usable` — a link that may stand in a chain;
* `Groundwork.KnowledgeBase.Chain` — a chain from one type to another.

Main results:

* `Groundwork.EdgeConstraint.permits_iff` — what a constraint permits;
* `Groundwork.KnowledgeBase.chain_of_mem_paths` — the search finds chains only;
* `Groundwork.KnowledgeBase.Chain.eq_singleton_or` — a chain is a single type, or its
  intermediates stand between its ends;
* `Groundwork.KnowledgeBase.choose_eq_some_iff` — a dependency has a chain exactly if its
  constraint permits one chain and no other;
* `Groundwork.KnowledgeBase.mapM_create` — resources for the intermediates of a chain.
-/
import Groundwork.Knowledge.Expansion
import Groundwork.Proofs.Table.Lookup
import Mathlib.Data.List.Chain

set_option relaxedAutoImplicit false
set_option autoImplicit false

namespace Groundwork

/-- A constraint permits the chains with all types that it requires and none that it excludes. -/
theorem EdgeConstraint.permits_iff {c : EdgeConstraint} {path : List TypeTag} :
    c.permits path = true ↔ (∀ t ∈ c.required, t ∈ path) ∧ ∀ t ∈ c.excluded, t ∉ path := by
  simp [permits]

namespace KnowledgeBase

variable {kb : KnowledgeBase}

/-! ### Chains -/

/-- The link from `a` to `b` may stand in a chain to `destination`. -/
def Usable (kb : KnowledgeBase) (destination a b : TypeTag) : Prop :=
  ∃ e, kb.entry? ⟨a, b⟩ = some e ∧ e.admits destination = true

/-- The types of `path` lead from `source` to `destination`. -/
structure Chain (kb : KnowledgeBase) (source destination : TypeTag) (path : List TypeTag) :
    Prop where
  /-- The chain starts at the source. -/
  head : path.head? = some source
  /-- The chain ends at the destination. -/
  last : path.getLast? = some destination
  /-- No type occurs twice. -/
  nodup : path.Nodup
  /-- Each type is linked to the next one. -/
  linked : path.IsChain (kb.Usable destination)

theorem mem_leaving {t next : TypeTag} {e : LinkEntry} :
    (next, e) ∈ kb.leaving t ↔ kb.entry? ⟨t, next⟩ = some e := by
  rw [leaving, List.mem_filterMap, entry?, Table.get?_eq_some_iff]
  constructor
  · rintro ⟨⟨⟨a, b⟩, e'⟩, hmem, hsome⟩
    split at hsome
    case isTrue ha =>
        cases hsome
        exact ha ▸ hmem
    case isFalse => cases hsome
  · intro hmem
    exact ⟨(⟨t, next⟩, e), hmem, by simp⟩

/-- The types behind a search that has arrived are a chain. -/
theorem of_eq_reverse {destination : TypeTag} {behind path : List TypeTag}
    (hpath : path = (destination :: behind).reverse) (hnodup : (destination :: behind).Nodup)
    (hlinked : (destination :: behind).IsChain fun b a => kb.Usable destination a b) :
    (destination :: behind).reverse <+: path ∧ path.getLast? = some destination ∧ path.Nodup ∧
      path.IsChain (kb.Usable destination) := by
  subst hpath
  exact ⟨List.prefix_rfl, by simp, List.nodup_reverse.2 hnodup, List.isChain_reverse.2 hlinked⟩

/-- The search goes on from what it was given along usable links to new types. -/
theorem of_mem_pathsFrom {destination : TypeTag} (n : ℕ) {current : TypeTag}
    {behind path : List TypeTag} (hpath : path ∈ kb.pathsFrom destination n current behind)
    (hnodup : (current :: behind).Nodup)
    (hlinked : (current :: behind).IsChain fun b a => kb.Usable destination a b) :
    (current :: behind).reverse <+: path ∧ path.getLast? = some destination ∧ path.Nodup ∧
      path.IsChain (kb.Usable destination) := by
  induction n generalizing current behind with
  | zero =>
      rw [pathsFrom] at hpath
      split at hpath
      case isTrue heq =>
          subst heq
          exact of_eq_reverse (List.mem_singleton.1 hpath) hnodup hlinked
      case isFalse => exact absurd hpath List.not_mem_nil
  | succ n ih =>
      rw [pathsFrom] at hpath
      split at hpath
      case isTrue heq =>
          subst heq
          exact of_eq_reverse (List.mem_singleton.1 hpath) hnodup hlinked
      case isFalse =>
          obtain ⟨⟨next, e⟩, hnext, hrest⟩ := List.mem_flatMap.1 hpath
          dsimp only at hrest
          split at hrest
          case isTrue => exact absurd hrest List.not_mem_nil
          case isFalse hnew =>
              have hnew' : next ∉ current :: behind ∧ e.admits destination = true := by
                simpa using hnew
              have husable : kb.Usable destination current next := ⟨e, mem_leaving.1 hnext, hnew'.2⟩
              have hnodup' : (next :: current :: behind).Nodup :=
                List.nodup_cons.2 ⟨hnew'.1, hnodup⟩
              have hlinked' : (next :: current :: behind).IsChain
                  fun b a => kb.Usable destination a b :=
                List.isChain_cons_cons.2 ⟨husable, hlinked⟩
              obtain ⟨hfront, hfound⟩ := ih hrest hnodup' hlinked'
              refine ⟨List.IsPrefix.trans ?_ hfront, hfound⟩
              rw [List.reverse_cons (a := next)]
              exact List.prefix_append _ _

/-- **The search finds chains only.** -/
theorem chain_of_mem_paths {source destination : TypeTag} {path : List TypeTag}
    (h : path ∈ kb.paths source destination) : kb.Chain source destination path := by
  obtain ⟨⟨rest, hfront⟩, hlast, hnodup, hlinked⟩ :=
    of_mem_pathsFrom _ h (List.nodup_singleton source) (List.isChain_singleton source)
  exact ⟨by simp [← hfront], hlast, hnodup, hlinked⟩

/-- Every type of a list but the first is the end of a hop. -/
theorem exists_mem_hops {path : List TypeTag} {t : TypeTag} (ht : t ∈ path.tail) :
    ∃ a, ⟨a, t⟩ ∈ hops path := by
  induction path with
  | nil => exact absurd ht List.not_mem_nil
  | cons a path ih =>
      match path with
      | [] => exact absurd ht List.not_mem_nil
      | b :: rest =>
          rcases List.mem_cons.1 ht with rfl | ht
          · exact ⟨a, List.mem_cons_self⟩
          · obtain ⟨c, hc⟩ := ih ht
            exact ⟨c, List.mem_cons_of_mem _ hc⟩

/-- The ends of a hop of a list without repetitions differ. -/
theorem ne_of_mem_hops {path : List TypeTag} (h : path.Nodup) {a b : TypeTag}
    (hab : ⟨a, b⟩ ∈ hops path) : a ≠ b := by
  induction path with
  | nil => exact absurd hab List.not_mem_nil
  | cons c path ih =>
      match path with
      | [] => exact absurd hab List.not_mem_nil
      | d :: rest =>
          obtain ⟨hnew, hrest⟩ := List.nodup_cons.1 h
          rcases List.mem_cons.1 hab with heq | hab
          · cases heq
            exact fun hcd => hnew (hcd ▸ List.mem_cons_self)
          · exact ih hrest hab

/-- Where each type is linked to the next one, every hop has an entry. -/
theorem exists_entry_of_mem_hops {destination : TypeTag} {path : List TypeTag}
    (hlinked : path.IsChain (kb.Usable destination)) {l : Link} (hl : l ∈ hops path) :
    ∃ e, kb.entry? l = some e := by
  induction path with
  | nil => exact absurd hl List.not_mem_nil
  | cons a path ih =>
      match path with
      | [] => exact absurd hl List.not_mem_nil
      | b :: rest =>
          obtain ⟨⟨e, he, -⟩, hrest⟩ := List.isChain_cons_cons.1 hlinked
          rcases List.mem_cons.1 hl with rfl | hl
          · exact ⟨e, he⟩
          · exact ih hrest hl

/-- The hops leave all types of a list but the last one. -/
theorem map_source_hops (path : List TypeTag) : (hops path).map Link.source = path.dropLast := by
  induction path with
  | nil => rfl
  | cons a path ih =>
      match path with
      | [] => rfl
      | b :: rest => rw [hops, List.map_cons, ih, List.dropLast_cons_cons]

@[simp] theorem length_hops (path : List TypeTag) : (hops path).length = path.length - 1 := by
  induction path with
  | nil => rfl
  | cons a path ih =>
      match path with
      | [] => rfl
      | b :: rest => simpa [hops] using ih

/-- A search that has arrived goes no further. -/
theorem pathsFrom_self (kb : KnowledgeBase) (destination : TypeTag) (n : ℕ)
    (behind : List TypeTag) :
    kb.pathsFrom destination n destination behind = [(destination :: behind).reverse] := by
  cases n <;> rw [pathsFrom, if_pos rfl]

/-- A link that may be used is a chain of its own. -/
theorem pair_mem_paths {a b : TypeTag} (hab : kb.Usable b a b) (hne : a ≠ b) :
    [a, b] ∈ kb.paths a b := by
  obtain ⟨e, he, hadmits⟩ := hab
  have hmem : (b, e) ∈ kb.leaving a := mem_leaving.2 he
  have hsize : 0 < kb.entries.size := List.length_pos_of_mem (Table.get?_eq_some_iff.1 he)
  obtain ⟨n, hn⟩ := Nat.exists_eq_succ_of_ne_zero hsize.ne'
  have hnew : ¬ (([a].contains b || !e.admits b) = true) := by
    simpa [hadmits] using hne.symm
  rw [paths, hn, pathsFrom, if_neg hne]
  refine List.mem_flatMap.2 ⟨(b, e), hmem, ?_⟩
  dsimp only
  rw [if_neg hnew, pathsFrom_self]
  exact List.mem_singleton_self _

namespace Chain

variable {source destination : TypeTag} {path : List TypeTag}

/-- A chain is a single type, or its intermediates stand between its ends. -/
theorem eq_singleton_or (h : kb.Chain source destination path) :
    path = [source] ∨ path = source :: intermediates path ++ [destination] := by
  obtain ⟨hhead, hlast, -, -⟩ := h
  match path with
  | [] => cases hhead
  | [a] => exact Or.inl (by simpa using hhead)
  | a :: b :: rest =>
      refine Or.inr ?_
      have ha : a = source := by simpa using hhead
      have hd : (b :: rest).getLast (List.cons_ne_nil b rest) = destination := by
        simpa [List.getLast?_eq_some_getLast] using hlast
      rw [intermediates, List.tail_cons, List.cons_append, ← hd, List.dropLast_append_getLast, ha]

/-- Every link of a chain has an entry. -/
theorem exists_entry (h : kb.Chain source destination path) {l : Link} (hl : l ∈ hops path) :
    ∃ e, kb.entry? l = some e :=
  exists_entry_of_mem_hops h.linked hl

/-- Every type between the ends of a chain is the end of a link. -/
theorem exists_entry_of_mem_intermediates (h : kb.Chain source destination path) {t : TypeTag}
    (ht : t ∈ intermediates path) : ∃ a e, kb.entry? ⟨a, t⟩ = some e := by
  obtain ⟨a, ha⟩ := exists_mem_hops (List.dropLast_subset _ ht)
  obtain ⟨e, he⟩ := h.exists_entry ha
  exact ⟨a, e, he⟩

end Chain

/-! ### The choice of a chain -/

section Choose

variable {source target : Ident} {c : EdgeConstraint}

theorem choose_of_paths_eq_nil (h : kb.paths source.tag target.tag = []) :
    kb.choose source target c = .ok none := by
  simp [choose, h]

theorem choose_of_permits_none (h : kb.paths source.tag target.tag ≠ [])
    (hnone : (kb.paths source.tag target.tag).filter c.permits = []) :
    kb.choose source target c =
      .error (.unsatisfiable source.text target.text (kb.paths source.tag target.tag).length) := by
  simp only [choose, List.isEmpty_iff, if_neg h, hnone]

theorem paths_ne_nil (h : (kb.paths source.tag target.tag).filter c.permits ≠ []) :
    kb.paths source.tag target.tag ≠ [] :=
  fun hnil => h (by rw [hnil]; rfl)

theorem choose_of_permits_one {path : List TypeTag}
    (h : (kb.paths source.tag target.tag).filter c.permits = [path]) :
    kb.choose source target c = .ok (some path) := by
  have hpaths : kb.paths source.tag target.tag ≠ [] :=
    paths_ne_nil (h ▸ List.cons_ne_nil path [])
  simp only [choose, List.isEmpty_iff, if_neg hpaths, h]

theorem choose_of_permits_several
    (h : 2 ≤ ((kb.paths source.tag target.tag).filter c.permits).length) :
    kb.choose source target c = .error (.ambiguousPath source.text target.text
      ((kb.paths source.tag target.tag).filter c.permits)) := by
  have hpaths : kb.paths source.tag target.tag ≠ [] :=
    paths_ne_nil (List.ne_nil_of_length_pos (Nat.lt_of_lt_of_le Nat.two_pos h))
  match hpermitted : (kb.paths source.tag target.tag).filter c.permits with
  | [] => simp [hpermitted] at h
  | [_] => simp [hpermitted] at h
  | _ :: _ :: _ => simp only [choose, List.isEmpty_iff, if_neg hpaths, hpermitted]

/-- A dependency has a chain exactly if its constraint permits one chain and no other. -/
theorem choose_eq_some_iff {path : List TypeTag} :
    kb.choose source target c = .ok (some path) ↔
      (kb.paths source.tag target.tag).filter c.permits = [path] := by
  refine ⟨fun h => ?_, choose_of_permits_one⟩
  rw [choose] at h
  split at h
  · cases h
  · split at h
    case h_2 heq =>
        cases h
        exact heq
    all_goals cases h

end Choose

/-- A failed choice is a single failure. -/
theorem parts_of_choose_eq_error {source target : Ident} {c : EdgeConstraint} {f : Fault}
    (h : kb.choose source target c = .error f) : f.parts = [f] := by
  rw [choose] at h
  split at h
  · cases h
  · split at h
    case h_2 => cases h
    all_goals
      cases h
      rfl

/-! ### Resources for the types of a chain -/

/-- The zero value of a type. -/
def blank (kb : KnowledgeBase) (t : TypeTag) : Resource :=
  .zero ((kb.factories.get? t).getD default)

/-- The text of the zero value of a type. -/
def zeroKey (kb : KnowledgeBase) (t : TypeTag) : String := (kb.blank t).key

theorem create_of_missing {t : TypeTag} (h : kb.factories.contains t = false) :
    kb.create t = .error (.missingFactory t) := by
  rw [Table.contains_eq_isSome, Option.isSome_eq_false_iff, Option.isNone_iff_eq_none] at h
  rw [create, form, h]
  rfl

theorem create_of_contains {t : TypeTag} (h : kb.factories.contains t = true) :
    kb.create t = .ok (kb.blank t) := by
  obtain ⟨f, hf⟩ := Table.contains_iff.1 h
  rw [create, form, blank, hf]
  rfl

/-- Zero values are made for all types, unless a type has no form; the first such is reported. -/
theorem mapM_create (kb : KnowledgeBase) (l : List TypeTag) :
    l.mapM kb.create = match l.find? fun t => !kb.factories.contains t with
      | some t => .error (.missingFactory t)
      | none => .ok (l.map kb.blank) := by
  induction l with
  | nil => rfl
  | cons a l ih =>
      rw [List.mapM_cons]
      cases ha : kb.factories.contains a with
      | false =>
          rw [create_of_missing ha, List.find?_cons_of_pos (by simp [ha])]
          rfl
      | true =>
          rw [create_of_contains ha, ih, List.find?_cons_of_neg (by simp [ha])]
          cases l.find? fun t => !kb.factories.contains t with
          | none => rfl
          | some t => rfl

theorem mapM_create_of_missing {l : List TypeTag} {t : TypeTag}
    (h : l.find? (fun t => !kb.factories.contains t) = some t) :
    l.mapM kb.create = .error (.missingFactory t) := by
  rw [mapM_create, h]

theorem mapM_create_of_contains {l : List TypeTag}
    (h : ∀ t ∈ l, kb.factories.contains t = true) : l.mapM kb.create = .ok (l.map kb.blank) := by
  have hnone : l.find? (fun t => !kb.factories.contains t) = none := by
    rw [List.find?_eq_none]
    intro t ht
    simp [h t ht]
  rw [mapM_create, hnone]

theorem eq_of_mapM_create_eq_ok {l : List TypeTag} {between : List Resource}
    (h : l.mapM kb.create = .ok between) : between = l.map kb.blank := by
  rw [mapM_create] at h
  split at h
  · cases h
  · cases h
    rfl

/-- Failing to make zero values is a single failure. -/
theorem parts_of_mapM_create_eq_error {l : List TypeTag} {f : Fault}
    (h : l.mapM kb.create = .error f) : f.parts = [f] := by
  rw [mapM_create] at h
  split at h
  · cases h
    rfl
  · cases h

end KnowledgeBase

end Groundwork
