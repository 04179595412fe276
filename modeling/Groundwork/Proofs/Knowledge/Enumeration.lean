/-
The chains that a search finds.

The search for chains may enter only so many more types, as many at first as there are links.
Nothing is lost by that: a search without a bound ends as well, since a chain uses each link once,
and finds the same.  What it finds are all chains between two types, in the order of their types.

Main definitions:

* `Groundwork.KnowledgeBase.onward` — the types that a search tries next;
* `Groundwork.KnowledgeBase.Search` — the search without a bound.

Main results:

* `Groundwork.KnowledgeBase.search_pathsFrom` — a search that may enter as many types as it could
  find links for ends as the search without a bound;
* `Groundwork.KnowledgeBase.Search.eq` — the search without a bound has one outcome;
* `Groundwork.KnowledgeBase.Search.mem_of_linked` — it misses no chain;
* `Groundwork.KnowledgeBase.Search.increasing` — it finds chains in the order of their types;
* `Groundwork.KnowledgeBase.paths_enumerate` — **the search for chains ends and lists each chain
  once, in order**.
-/
import Groundwork.Proofs.Knowledge.Chains
import Mathlib.Data.List.Perm.Subperm
import Mathlib.Data.String.Basic

set_option relaxedAutoImplicit false
set_option autoImplicit false

namespace Groundwork.KnowledgeBase

variable {kb : KnowledgeBase} {destination current next : TypeTag} {behind path rest : List TypeTag}
  {found : List (List TypeTag)}

/-! ### The types that come next -/

/-- The types to which a search goes on from `current`, with the types of `behind` behind it. -/
def onward (kb : KnowledgeBase) (destination current : TypeTag) (behind : List TypeTag) :
    List TypeTag :=
  (kb.leaving current).filterMap fun (next, entry) =>
    if (current :: behind).contains next || !entry.admits destination then none else some next

/-- A search goes on along usable links to types that it has not entered. -/
theorem mem_onward_iff : next ∈ kb.onward destination current behind ↔
    kb.Usable destination current next ∧ next ∉ current :: behind := by
  rw [onward, List.mem_filterMap]
  constructor
  · rintro ⟨⟨t, e⟩, hleaving, hsome⟩
    dsimp only at hsome
    split at hsome
    case isTrue => cases hsome
    case isFalse htest =>
        cases hsome
        have hnew : next ∉ current :: behind ∧ e.admits destination = true := by simpa using htest
        exact ⟨⟨e, mem_leaving.1 hleaving, hnew.2⟩, hnew.1⟩
  · rintro ⟨⟨e, he, hadmits⟩, hnew⟩
    refine ⟨(next, e), mem_leaving.2 he, if_neg ?_⟩
    simpa [hadmits] using hnew

/-- A longer search is several searches, each of which has gone on to one more type. -/
theorem pathsFrom_succ (kb : KnowledgeBase) (hne : current ≠ destination) (n : ℕ)
    (behind : List TypeTag) :
    kb.pathsFrom destination (n + 1) current behind =
      (kb.onward destination current behind).flatMap fun next =>
        kb.pathsFrom destination n next (current :: behind) := by
  rw [pathsFrom, if_neg hne, onward, List.filterMap_eq_flatMap_toList, List.flatMap_assoc]
  refine List.flatMap_congr fun l _ => ?_
  dsimp only
  split
  · rfl
  · exact (List.flatMap_singleton _ _).symm

/-- Links from one type come in the order of the types at their ends. -/
theorem leaving_increase (kb : KnowledgeBase) (t : TypeTag) :
    (kb.leaving t).Pairwise fun a b => a.1.text < b.1.text := by
  refine List.Pairwise.filterMap _ ?_ kb.entries.sorted
  rintro ⟨⟨a, b⟩, e⟩ ⟨⟨a', b'⟩, e'⟩ hlt x hx y hy
  have htexts : compare [a.text, b.text] [a'.text, b'.text] = .lt := hlt
  dsimp only at hx hy
  split at hx
  case isFalse => cases hx
  case isTrue ha =>
      split at hy
      case isFalse => cases hy
      case isTrue ha' =>
          cases hx
          cases hy
          subst ha ha'
          simpa [compare_lt_iff_lt] using htexts

theorem onward_increase (kb : KnowledgeBase) (destination current : TypeTag)
    (behind : List TypeTag) :
    (kb.onward destination current behind).Pairwise fun a b => a.text < b.text := by
  refine List.Pairwise.filterMap _ ?_ (leaving_increase kb current)
  rintro ⟨a, e⟩ ⟨b, e'⟩ hlt x hx y hy
  dsimp only at hx hy hlt
  split at hx <;> cases hx
  split at hy <;> cases hy
  exact hlt

/-! ### The search without a bound -/

/-- A search for chains to `destination` has come to a type, with the types of a list behind it,
and ends with the chains that it has found. -/
inductive Search (kb : KnowledgeBase) (destination : TypeTag) :
    TypeTag → List TypeTag → List (List TypeTag) → Prop
  /-- It has arrived. -/
  | arrived (behind : List TypeTag) :
      Search kb destination destination behind [(destination :: behind).reverse]
  /-- It goes on to each of the types that come next, and ends when all these searches have. -/
  | onward {current : TypeTag} {behind : List TypeTag} (further : TypeTag → List (List TypeTag))
      (hne : current ≠ destination)
      (hfurther : ∀ next ∈ kb.onward destination current behind,
        Search kb destination next (current :: behind) (further next)) :
      Search kb destination current behind ((kb.onward destination current behind).flatMap further)

/-- The consecutive types of a search are the ends of different links. -/
theorem length_behind_le (hnodup : (current :: behind).Nodup)
    (hlinked : (current :: behind).IsChain fun b a => kb.Usable destination a b) :
    behind.length ≤ kb.entries.size := by
  set path := (current :: behind).reverse with hpath
  have hlinks : ∀ l ∈ hops path, l ∈ kb.links := by
    intro l hl
    obtain ⟨e, he⟩ := exists_entry_of_mem_hops (List.isChain_reverse.2 hlinked) hl
    exact Table.mem_keys_iff.2 (Table.contains_iff.2 ⟨e, he⟩)
  have hdifferent : (hops path).Nodup := by
    refine List.Nodup.of_map Link.source ?_
    rw [map_source_hops]
    exact (List.nodup_reverse.2 hnodup).sublist (List.dropLast_sublist _)
  have hlen := (hdifferent.subperm hlinks).length_le
  rw [length_hops, hpath, List.length_reverse, List.length_cons, Nat.add_sub_cancel] at hlen
  exact hlen.trans_eq (List.length_map _)

/-- A search that may enter as many types as there are links for ends as the search without a
bound. -/
theorem search_pathsFrom (n : ℕ) (hn : kb.entries.size ≤ behind.length + n)
    (hnodup : (current :: behind).Nodup)
    (hlinked : (current :: behind).IsChain fun b a => kb.Usable destination a b) :
    kb.Search destination current behind (kb.pathsFrom destination n current behind) := by
  induction n generalizing current behind with
  | zero =>
      by_cases hne : current = destination
      · subst hne
        rw [pathsFrom_self]
        exact Search.arrived behind
      · -- every link is used up, so no type comes next
        have hnone : kb.onward destination current behind = [] := by
          refine List.eq_nil_iff_forall_not_mem.2 fun next hnext => ?_
          obtain ⟨husable, hnew⟩ := mem_onward_iff.1 hnext
          have hlen : (current :: behind).length ≤ kb.entries.size :=
            length_behind_le (List.nodup_cons.2 ⟨hnew, hnodup⟩)
              (List.isChain_cons_cons.2 ⟨husable, hlinked⟩)
          rw [List.length_cons] at hlen
          omega
        have hsearch : kb.Search destination current behind
            ((kb.onward destination current behind).flatMap fun _ => []) :=
          Search.onward _ hne fun next hnext => absurd hnext (hnone ▸ List.not_mem_nil)
        rw [hnone] at hsearch
        rwa [pathsFrom, if_neg hne]
  | succ n ih =>
      by_cases hne : current = destination
      · subst hne
        rw [pathsFrom_self]
        exact Search.arrived behind
      · rw [pathsFrom_succ kb hne]
        refine Search.onward _ hne fun next hnext => ?_
        obtain ⟨husable, hnew⟩ := mem_onward_iff.1 hnext
        refine ih ?_ (List.nodup_cons.2 ⟨hnew, hnodup⟩)
          (List.isChain_cons_cons.2 ⟨husable, hlinked⟩)
        rw [List.length_cons]
        omega

namespace Search

/-- The search has one outcome. -/
theorem eq {found' : List (List TypeTag)} (h : kb.Search destination current behind found)
    (h' : kb.Search destination current behind found') : found = found' := by
  induction h generalizing found' with
  | arrived behind =>
      cases h' with
      | arrived => rfl
      | onward _ hne _ => exact absurd rfl hne
  | onward further hne _ ih =>
      cases h' with
      | arrived => exact absurd rfl hne
      | onward further' _ hfurther' =>
          exact List.flatMap_congr fun next hnext => ih next hnext (hfurther' next hnext)

/-- What is found goes on from the types that the search has entered. -/
theorem isPrefix (h : kb.Search destination current behind found) (hpath : path ∈ found) :
    (current :: behind).reverse <+: path := by
  induction h with
  | arrived behind => exact List.mem_singleton.1 hpath ▸ List.prefix_rfl
  | @onward current behind further _ _ ih =>
      obtain ⟨next, hnext, hrest⟩ := List.mem_flatMap.1 hpath
      refine List.IsPrefix.trans ?_ (ih next hnext hrest)
      rw [List.reverse_cons (a := next)]
      exact List.prefix_append _ _

/-- No chain is missed. -/
theorem mem_of_linked (h : kb.Search destination current behind found)
    (hlast : (current :: rest).getLast? = some destination)
    (hnodup : ((current :: behind).reverse ++ rest).Nodup)
    (hlinked : (current :: rest).IsChain (kb.Usable destination)) :
    (current :: behind).reverse ++ rest ∈ found := by
  induction h generalizing rest with
  | arrived behind =>
      -- the last type would occur twice if there were more
      have hnil : rest = [] := by
        by_contra hne
        have hmem : destination ∈ rest := by
          rw [List.getLast?_cons, List.getLast?_eq_some_getLast hne] at hlast
          exact Option.some_inj.1 hlast ▸ List.getLast_mem hne
        exact (List.nodup_append.1 hnodup).2.2 destination (by simp) destination hmem rfl
      rw [hnil, List.append_nil]
      exact List.mem_singleton_self _
  | @onward current behind further hne _ ih =>
      cases rest with
      | nil => exact absurd (by simpa using hlast) hne
      | cons next rest =>
          obtain ⟨husable, hlinked⟩ := List.isChain_cons_cons.1 hlinked
          have hshift : (current :: behind).reverse ++ next :: rest =
              (next :: current :: behind).reverse ++ rest := by simp
          rw [hshift] at hnodup ⊢
          have hnew : next ∉ current :: behind :=
            (List.nodup_cons.1 (List.nodup_reverse.1 (List.nodup_append.1 hnodup).1)).1
          have hnext := mem_onward_iff.2 ⟨husable, hnew⟩
          refine List.mem_flatMap.2 ⟨next, hnext, ih next hnext ?_ hnodup hlinked⟩
          rwa [List.getLast?_cons_cons] at hlast

/-- Chains are found in the order of their types. -/
theorem increasing (h : kb.Search destination current behind found) :
    found.Pairwise fun p q => p.map TypeTag.text < q.map TypeTag.text := by
  induction h with
  | arrived behind => exact List.pairwise_singleton _ _
  | onward further hne hfurther ih =>
      refine List.pairwise_flatMap.2 ⟨ih, (onward_increase kb _ _ _).imp_of_mem ?_⟩
      -- chains that go on to different types differ there for the first time
      intro a b ha hb hlt p hp q hq
      obtain ⟨u, rfl⟩ := (hfurther a ha).isPrefix hp
      obtain ⟨v, rfl⟩ := (hfurther b hb).isPrefix hq
      simp only [List.reverse_cons (a := a), List.reverse_cons (a := b), List.append_assoc,
        List.singleton_append, List.map_append, List.map_cons]
      exact List.append_left_lt (List.cons_lt_cons_iff.2 (Or.inl hlt))

end Search

/-! ### All chains -/

theorem search_paths (kb : KnowledgeBase) (source destination : TypeTag) :
    kb.Search destination source [] (kb.paths source destination) :=
  search_pathsFrom kb.entries.size (by simp) (List.nodup_singleton source)
    (List.isChain_singleton source)

/-- The search finds exactly the chains. -/
theorem mem_paths_iff {source : TypeTag} :
    path ∈ kb.paths source destination ↔ kb.Chain source destination path := by
  refine ⟨chain_of_mem_paths, fun h => ?_⟩
  obtain ⟨rest, rfl⟩ := List.head?_eq_some_iff.1 h.head
  exact (search_paths kb source destination).mem_of_linked h.last h.nodup h.linked

/-- A link may be used unless it has to be realised and names other types. -/
theorem usable_iff {a b : TypeTag} : kb.Usable destination a b ↔
    ∃ e, kb.entry? ⟨a, b⟩ = some e ∧
      (e.expand.isSome = true → e.destinations ≠ [] → destination ∈ e.destinations) := by
  refine exists_congr fun e => and_congr_right fun _ => ?_
  rw [LinkEntry.admits, Bool.or_eq_true, Bool.or_eq_true, Option.isNone_iff_eq_none,
    List.isEmpty_iff, List.contains_iff_mem, ← Option.not_isSome_iff_eq_none]
  tauto

/-- **The search for chains ends and lists each chain once, in order.**  Without a bound it has one
outcome, which is the list.  A list of types is in it exactly if it leads from the source to the
destination, repeats no type and follows entries that may be used for the destination, and these
lists increase strictly.  From a type to itself there is one chain. -/
theorem paths_enumerate (kb : KnowledgeBase) (source destination : TypeTag) :
    (∀ found, kb.Search destination source [] found ↔ found = kb.paths source destination) ∧
      (∀ path, path ∈ kb.paths source destination ↔
        path.head? = some source ∧ path.getLast? = some destination ∧ path.Nodup ∧
          path.IsChain fun a b => ∃ e, kb.entry? ⟨a, b⟩ = some e ∧
            (e.expand.isSome = true → e.destinations ≠ [] → destination ∈ e.destinations)) ∧
      (kb.paths source destination).Nodup ∧
      ((kb.paths source destination).Pairwise fun p q =>
        p.map TypeTag.text < q.map TypeTag.text) ∧
      kb.paths source source = [[source]] := by
  have hsearch := search_paths kb source destination
  have hlinked : (fun a b => ∃ e, kb.entry? ⟨a, b⟩ = some e ∧
      (e.expand.isSome = true → e.destinations ≠ [] → destination ∈ e.destinations)) =
        kb.Usable destination :=
    funext₂ fun a b => propext usable_iff.symm
  refine ⟨fun found => ⟨fun h => h.eq hsearch, ?_⟩, fun path => ?_, ?_, hsearch.increasing,
    pathsFrom_self kb source _ []⟩
  · rintro rfl
    exact hsearch
  · rw [mem_paths_iff, hlinked]
    exact ⟨fun h => ⟨h.head, h.last, h.nodup, h.linked⟩,
      fun h => ⟨h.1, h.2.1, h.2.2.1, h.2.2.2⟩⟩
  · refine hsearch.increasing.imp fun hlt heq => ?_
    rw [heq] at hlt
    exact lt_irrefl _ hlt

end Groundwork.KnowledgeBase
