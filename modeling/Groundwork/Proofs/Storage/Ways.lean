/-
Ways on a disk.

The operations of a disk follow a path from its start, name by name, and the first step that cannot
be taken decides the failure.  All of them go the same way, up to what they do at its end, so that
it is described once: which place the components lead to, whether all directories on the way are
there, and what stands in the way otherwise.  Something that is missing is no obstacle, since it can
be made.

Main definitions:

* `Groundwork.Disk.Sound` — every entry is in a directory;
* `Groundwork.Disk.spot` — the place that components lead to, whether it is there or not;
* `Groundwork.Disk.reach`, `Groundwork.Disk.Reached` — following components on a disk;
* `Groundwork.Disk.obstacle?` — why no directory can be made at the end of a way;
* `Groundwork.Disk.Makes` — what can come of making a directory there.

Main results:

* `Groundwork.Disk.foldlM_enter` — the operations follow the components of a path;
* `Groundwork.Disk.reach_cases` — a way is there, or something is missing, or it is blocked;
* `Groundwork.Disk.makes_makeDirectory` — nothing else can come of making a directory;
* `Groundwork.Disk.isDirectory_eq`, `Groundwork.Disk.find_eq`, `Groundwork.Disk.create_eq` — the
  other operations, by the end of the way.
-/
import Groundwork.Proofs.Storage.Paths
import Groundwork.Proofs.Table.Lookup

set_option relaxedAutoImplicit false
set_option autoImplicit false

namespace Groundwork

/-- Whether a component is not too long to be a name. -/
def PathStep.fits : PathStep → Bool
  | .name s => s.utf8ByteSize ≤ 255
  | _ => true

namespace Disk

open PathStep (Tidy)

variable {d : Disk}

/-! ### Entries -/

theorem entry?_put {p : Place} (hp : p ≠ []) (d : Disk) (e : DiskEntry) (q : Place) :
    entry? (d.put p e) q = if p = q then some e else d.entry? q := by
  unfold entry?
  cases q with
  | nil => exact (if_neg hp).symm
  | cons s q => exact Table.get?_insert _ _ _ _

/-- Every entry is in a directory, the working directory is there, and the root has no entry. -/
structure Sound (d : Disk) : Prop where
  root_none : d.entries.get? [] = none
  cwd_directory : d.entry? d.cwd = some .directory
  dropLast_directory : ∀ p, ( d.entry? p).isSome = true → d.entry? p.dropLast = some .directory

/-- What is put into a directory leaves the disk sound, unless it takes the place of another
directory. -/
theorem Sound.put (h : d.Sound) {p : Place} {s : String} {e : DiskEntry}
    (hp : d.entry? p = some .directory)
    (he : d.entry? (p ++ [s]) ≠ some .directory ∨ e = .directory) : (d.put (p ++ [s]) e).Sound := by
  have hentry := entry?_put (List.concat_ne_nil s p) d e
  -- directories stay where they are
  have hkept : ∀ q, d.entry? q = some .directory →
      entry? (d.put (p ++ [s]) e) q = some .directory := by
    intro q hq
    rw [hentry]
    split
    case isTrue heq =>
        rw [← heq] at hq
        rw [he.resolve_left fun hne => hne hq]
    case isFalse => exact hq
  constructor
  · exact (Table.get?_insert d.entries (p ++ [s]) [] e).trans
      ((if_neg (List.concat_ne_nil s p)).trans h.root_none)
  · exact hkept _ h.cwd_directory
  · intro q hq
    rw [hentry] at hq
    split at hq
    case isTrue heq =>
        rw [← heq, List.dropLast_concat]
        exact hkept _ hp
    case isFalse => exact hkept _ (h.dropLast_directory q hq)

/-- Sound disks on which the same things stand are the same. -/
theorem Sound.ext {d' : Disk} (h : d.Sound) (h' : d'.Sound) (hcwd : d.cwd = d'.cwd)
    (hentry : ∀ q, d.entry? q = d'.entry? q) : d = d' := by
  have hentries : d.entries = d'.entries := by
    refine Table.ext_get? fun q => ?_
    cases q with
    | nil => rw [h.root_none, h'.root_none]
    | cons s q => exact hentry (s :: q)
  cases d
  cases d'
  simp_all only

theorem checkName_eq (s : String) : checkName s =
    if (PathStep.name s).fits then .ok s else .error .nameTooLong := by
  unfold checkName PathStep.fits
  simp only [decide_eq_true_eq]
  split
  case isTrue h => rw [if_neg (Nat.not_le.2 h)]
  case isFalse h => rw [if_pos (Nat.not_lt.1 h)]

theorem requireDirectory_eq_ok_iff {p q : Place} :
    d.requireDirectory p = .ok q ↔ d.entry? p = some .directory ∧ q = p := by
  unfold requireDirectory
  split
  case h_1 h => simp [h, eq_comm]
  case h_2 h => simp [h]
  case h_3 h => simp [h]

theorem requireDirectory_of_directory {p : Place} (h : d.entry? p = some .directory) :
    d.requireDirectory p = .ok p :=
  requireDirectory_eq_ok_iff.2 ⟨h, rfl⟩

/-- A directory is still one when it is looked at again. -/
theorem requireDirectory_bind (d : Disk) (p : Place) :
    (d.requireDirectory p >>= d.requireDirectory) = d.requireDirectory p := by
  cases h : d.requireDirectory p with
  | error e => rfl
  | ok q =>
      obtain ⟨-, rfl⟩ := requireDirectory_eq_ok_iff.1 h
      exact h

/-! ### Following components -/

/-- The place that components lead to from a working directory if nothing is missing. -/
def spot (cwd : Place) : List PathStep → Place
  | [] => cwd
  | .root :: _ => []
  | .here :: front => spot cwd front
  | .up :: front => (spot cwd front).dropLast
  | .name s :: front => spot cwd front ++ [s]

/-- The directory that components lead to. -/
def reach (d : Disk) : List PathStep → Except DiskFault Place
  | [] => d.requireDirectory d.cwd
  | .root :: _ => .ok []
  | .here :: front => d.reach front
  | .up :: front => do d.requireDirectory (← d.reach front).dropLast
  | .name s :: front => do
    let p ← d.reach front
    d.requireDirectory (p ++ [← checkName s])

theorem reach_name (d : Disk) (s : String) (front : List PathStep) :
    d.reach (.name s :: front) = d.reach front >>= fun p =>
      if (PathStep.name s).fits then d.requireDirectory (p ++ [s]) else .error .nameTooLong := by
  simp only [reach, checkName_eq]
  refine bind_congr fun p => ?_
  split <;> rfl

/-- A step of a path, from one place that has to be a directory to the next one. -/
theorem enter_bind (d : Disk) (p : Place) (s : String) :
    (d.enter p s >>= d.requireDirectory) =
      match FilePath.stepOf s with
      | some .up => d.requireDirectory p >>= fun p => d.requireDirectory p.dropLast
      | some (.name s) => d.requireDirectory p >>= fun p =>
          checkName s >>= fun s => d.requireDirectory (p ++ [s])
      | _ => d.requireDirectory p := by
  have hnext (q : Place) : ((if ( d.entry? q).isSome then pure q else throw .notFound :
      Except DiskFault Place) >>= d.requireDirectory) = d.requireDirectory q := by
    split
    case isTrue => rfl
    case isFalse h =>
        rw [Bool.not_eq_true, Option.isSome_eq_false_iff, Option.isNone_iff_eq_none] at h
        rw [requireDirectory, h]
        rfl
  by_cases hhere : s = "."
  · subst hhere
    simp only [enter, FilePath.stepOf, if_true, bind_assoc, pure_bind]
    exact requireDirectory_bind d p
  by_cases hup : s = ".."
  · subst hup
    simp only [enter, FilePath.stepOf, if_neg hhere, if_true, bind_assoc, pure_bind]
  · simp only [enter, FilePath.stepOf, if_neg hhere, if_neg hup, bind_assoc, hnext]

/-- The operations of a disk follow the components of a path. -/
theorem foldlM_enter (d : Disk) (l : List String) (absolute here : Bool) :
    (l.foldlM d.enter (if absolute then [] else d.cwd) >>= d.requireDirectory) =
      d.reach ((l.filterMap FilePath.stepOf).reverse ++
        if absolute then [.root] else if here then [.here] else []) := by
  induction l using List.reverseRecOn with
  | nil =>
      cases absolute with
      | true => rfl
      | false => cases here <;> rfl
  | append_singleton l s ih =>
      have hlast : (l ++ [s]).filterMap FilePath.stepOf =
          l.filterMap FilePath.stepOf ++ (FilePath.stepOf s).toList := by
        rw [List.filterMap_append]
        cases h : FilePath.stepOf s with
        | none => rw [List.filterMap_cons_none h]; rfl
        | some c => rw [List.filterMap_cons_some h]; rfl
      simp only [List.foldlM_append, List.foldlM_cons, List.foldlM_nil, bind_pure, bind_assoc,
        enter_bind]
      rw [hlast, List.reverse_append, List.append_assoc]
      cases h : FilePath.stepOf s with
      | none => exact ih
      | some c =>
          cases c with
          | root => exact absurd h (FilePath.stepOf_ne s).1
          | here => exact absurd h (FilePath.stepOf_ne s).2
          | up =>
              simp only [← bind_assoc, ih]
              rfl
          | name t =>
              simp only [← bind_assoc]
              rw [ih]
              rfl

/-! ### Where a path starts and ends -/

section Ends

variable {p : FilePath}

theorem origin_eq (d : Disk) (p : FilePath) : d.origin p =
    match p.flaw? with
    | some e => .error e
    | none => .ok (if p.isAbsolute then [] else d.cwd) := by
  unfold origin FilePath.flaw?
  split
  · rfl
  · split
    · rfl
    · split <;> rfl

theorem origin_of_flawless (d : Disk) (h : p.flaw? = none) :
    d.origin p = .ok (if p.isAbsolute then [] else d.cwd) := by
  rw [origin_eq, h]

/-- A path is followed to its end by its components. -/
theorem foldlM_segments (d : Disk) (p : FilePath) :
    (p.segments.foldlM d.enter (if p.isAbsolute then [] else d.cwd) >>= d.requireDirectory) =
      d.reach p.components.reverse := by
  rw [FilePath.reverse_components, foldlM_enter d _ _ (decide (p.segments.head? = some "."))]
  simp only [decide_eq_true_eq]

/-- A path is followed up to its last name by the components before that. -/
theorem foldlM_front (d : Disk) {front : List String} {s : String}
    (hp : p.segments = front ++ [s]) (hhere : s ≠ ".") (hup : s ≠ "..") :
    (front.foldlM d.enter (if p.isAbsolute then [] else d.cwd) >>= d.requireDirectory) =
      d.reach p.components.reverse.tail := by
  have hlast : p.segments.filterMap FilePath.stepOf =
      front.filterMap FilePath.stepOf ++ [.name s] := by
    rw [hp, List.filterMap_append,
      List.filterMap_cons_some (FilePath.stepOf_of_isName hhere hup), List.filterMap_nil]
  rw [FilePath.reverse_components, hlast, List.reverse_append, List.reverse_singleton,
    List.append_assoc, List.singleton_append, List.tail_cons,
    foldlM_enter d _ _ (decide (p.segments.head? = some "."))]
  simp only [decide_eq_true_eq]

/-- The directory that the last name of a path is in. -/
theorem locate_of_name (d : Disk) (hflaw : p.flaw? = none) {front : List String} {s : String}
    (hp : p.segments = front ++ [s]) (hhere : s ≠ ".") (hup : s ≠ "..") :
    d.locate p = d.reach p.components.reverse.tail >>= fun q => .ok (q, some s) := by
  have hreverse : p.segments.reverse = s :: front.reverse := by
    rw [hp, List.reverse_append]
    rfl
  rw [← foldlM_front d hp hhere hup, locate, origin_eq, hflaw]
  simp only [hreverse, List.reverse_reverse, hhere, hup, decide_false, Bool.or_self, bind_assoc]
  rfl

/-- A path that ends with a directory itself or with the one above has no last name. -/
theorem locate_of_dots (d : Disk) (hflaw : p.flaw? = none) {front : List String} {s : String}
    (hp : p.segments = front ++ [s]) (hs : s = "." ∨ s = "..") :
    d.locate p = (front.foldlM d.enter (if p.isAbsolute then [] else d.cwd) >>=
      d.requireDirectory) >>= fun q => .ok (q, none) := by
  have hreverse : p.segments.reverse = s :: front.reverse := by
    rw [hp, List.reverse_append]
    rfl
  have hdots : (decide (s = ".") || decide (s = "..")) = true := by
    rcases hs with rfl | rfl <;> decide
  rw [locate, origin_eq, hflaw]
  simp only [hreverse, List.reverse_reverse, hdots, bind_assoc]
  rfl

end Ends

/-! ### What is on the way -/

/-- Whether there is a file at a place. -/
def holdsFile (d : Disk) (p : Place) : Bool :=
  match d.entry? p with
  | some (.file _) => true
  | _ => false

/-- All directories on a way are there. -/
def Reached (d : Disk) (path : List PathStep) : Prop := d.reach path = .ok (spot d.cwd path)

/-- A failure seen from further down the way. -/
def beyond (e : DiskFault) : DiskFault := if e = .exists then .notDirectory else e

/-- Why no directory can be made at the end of a way, even if all that is missing is made: a name is
too long, or there is a file. -/
def obstacle? (d : Disk) : List PathStep → Option DiskFault
  | [] => none
  | c :: front =>
    match d.obstacle? front with
    | none =>
      if !c.fits then some .nameTooLong
      else if d.holdsFile (spot d.cwd (c :: front)) then some .exists
      else none
    | some e => some (beyond e)

section Way

variable {c : PathStep} {front path l : List PathStep} {e : DiskFault} {p : Place}

theorem beyond_ne_exists (e : DiskFault) : beyond e ≠ .exists := by
  unfold beyond
  split
  · exact nofun
  case isFalse h => exact h

theorem beyond_eq_nameTooLong_iff : beyond e = .nameTooLong ↔ e = .nameTooLong := by
  cases e <;> decide

theorem obstacle?_ne_notFound (d : Disk) (path : List PathStep) :
    d.obstacle? path ≠ some .notFound := by
  induction path with
  | nil => exact nofun
  | cons c front ih =>
      unfold obstacle?
      split
      case h_1 => split <;> [skip; split] <;> exact nofun
      case h_2 e he =>
          rw [he] at ih
          unfold beyond
          split
          · exact nofun
          · exact ih

/-- Nothing is in the way of a part of a way if nothing is in the way of the whole. -/
theorem obstacle?_of_suffix (hl : l <:+ path) (h : d.obstacle? path = none) :
    d.obstacle? l = none := by
  induction path with
  | nil => rwa [List.suffix_nil.1 hl]
  | cons c front ih =>
      rcases List.suffix_cons_iff.1 hl with rfl | hl
      · exact h
      · refine ih hl ?_
        unfold obstacle? at h
        split at h
        case h_1 hfront => exact hfront
        case h_2 => cases h

/-- A failure on the way stays one. -/
theorem reach_cons_of_error (hc : c ≠ .root) (h : d.reach front = .error e) :
    d.reach (c :: front) = .error e := by
  cases c with
  | root => exact absurd rfl hc
  | here => exact h
  | up => rw [reach, h]; rfl
  | name s => rw [reach, h]; rfl

theorem obstacle?_cons_of_free (h : d.obstacle? front = none) :
    d.obstacle? (c :: front) = if !c.fits then some .nameTooLong
      else if d.holdsFile (spot d.cwd (c :: front)) then some .exists else none := by
  rw [obstacle?, h]

theorem obstacle?_cons_of_blocked (h : d.obstacle? front = some e) :
    d.obstacle? (c :: front) = some (beyond e) := by
  rw [obstacle?, h]

/-- A way that is blocked somewhere is blocked at its end as well. -/
theorem obstacle?_of_blocked (hl : l <:+ path) (h : d.obstacle? l = some e) :
    ∃ e', d.obstacle? path = some e' ∧ beyond e' = beyond e := by
  induction path with
  | nil =>
      rw [List.suffix_nil.1 hl] at h
      exact ⟨e, h, rfl⟩
  | cons c front ih =>
      rcases List.suffix_cons_iff.1 hl with rfl | hl
      · exact ⟨e, h, rfl⟩
      · obtain ⟨e', hfront, heq⟩ := ih hl
        refine ⟨beyond e', obstacle?_cons_of_blocked hfront, ?_⟩
        rw [← heq, beyond, if_neg (beyond_ne_exists e')]

/-- What is before an obstacle is before all that follows it. -/
theorem forall_suffix_of_blocked (h : d.obstacle? (c :: front) = some e)
    (hfront : ∀ l, l <:+ front → d.obstacle? l = none → d.Reached l) :
    ∀ l, l <:+ c :: front → d.obstacle? l = none → d.Reached l := by
  intro l hl hfree
  rcases List.suffix_cons_iff.1 hl with rfl | hl
  · rw [h] at hfree
    cases hfree
  · exact hfront l hl hfree

/-- A way that can be followed leads to its place, where there is a directory. -/
theorem spot_of_reach (h : d.reach path = .ok p) :
    p = spot d.cwd path ∧ d.entry? p = some .directory := by
  induction path generalizing p with
  | nil =>
      obtain ⟨hentry, rfl⟩ := requireDirectory_eq_ok_iff.1 h
      exact ⟨rfl, hentry⟩
  | cons c front ih =>
      cases hfront : d.reach front with
      | error e =>
          by_cases hc : c = .root
          · subst hc
            cases h
            exact ⟨rfl, rfl⟩
          · rw [reach_cons_of_error hc hfront] at h
            cases h
      | ok q =>
          obtain ⟨rfl, -⟩ := ih hfront
          cases c with
          | root =>
              cases h
              exact ⟨rfl, rfl⟩
          | here => exact ih h
          | up =>
              rw [reach, hfront] at h
              obtain ⟨hentry, rfl⟩ := requireDirectory_eq_ok_iff.1 h
              exact ⟨rfl, hentry⟩
          | name s =>
              rw [reach_name, hfront] at h
              change ite _ _ _ = _ at h
              split at h
              · obtain ⟨hentry, rfl⟩ := requireDirectory_eq_ok_iff.1 h
                exact ⟨rfl, hentry⟩
              · cases h

theorem Reached.directory (h : d.Reached path) : d.entry? (spot d.cwd path) = some .directory :=
  (spot_of_reach h).2

/-- After a way that is there, the next step decides. -/
theorem reach_cons_of_reached (hc : c ≠ .root) (h : d.Reached front) :
    d.reach (c :: front) =
      if c.fits then d.requireDirectory (spot d.cwd (c :: front)) else .error .nameTooLong := by
  have hfront : d.reach front = .ok (spot d.cwd front) := h
  cases c with
  | root => exact absurd rfl hc
  | here => exact hfront.trans (requireDirectory_of_directory h.directory).symm
  | up => rw [reach, hfront]; rfl
  | name s => rw [reach_name, hfront]; rfl

/-- A way stays there as long as directories stay. -/
theorem Reached.mono {d' : Disk} (h : d.Reached path) (hcwd : d'.cwd = d.cwd)
    (hkept : ∀ q, d.entry? q = some .directory → d'.entry? q = some .directory) :
    d'.Reached path := by
  induction path with
  | nil =>
      rw [Reached, reach, hcwd]
      exact requireDirectory_of_directory (hkept _ h.directory)
  | cons c front ih =>
      by_cases hc : c = .root
      · subst hc
        rfl
      cases hfront : d.reach front with
      | error e =>
          rw [Reached, reach_cons_of_error hc hfront] at h
          cases h
      | ok q =>
          have hfront : d.Reached front := by rw [Reached, hfront, (spot_of_reach hfront).1]
          have hdirectory := h.directory
          rw [Reached, reach_cons_of_reached hc hfront] at h
          rw [Reached, reach_cons_of_reached hc (ih hfront), hcwd]
          split at h
          case isTrue hfits =>
              rw [if_pos hfits]
              exact requireDirectory_of_directory (hkept _ hdirectory)
          case isFalse => cases h

/-- A way that is there is there up to each of its components. -/
theorem Reached.of_suffix (hd : d.Sound) (hpath : Tidy path) (h : d.Reached path)
    (hl : l <:+ path) : d.Reached l := by
  induction path with
  | nil => rwa [List.suffix_nil.1 hl]
  | cons c front ih =>
      rcases List.suffix_cons_iff.1 hl with rfl | hl
      · exact h
      · refine ih hpath.tail ?_ hl
        by_cases hc : c = .root
        · subst hc
          obtain rfl : front = [] := hpath
          exact requireDirectory_of_directory hd.cwd_directory
        · cases hfront : d.reach front with
          | error e =>
              unfold Reached at h
              rw [reach_cons_of_error hc hfront] at h
              cases h
          | ok q => rw [Reached, hfront, (spot_of_reach hfront).1]

theorem Reached.forall_suffix (hd : d.Sound) (hpath : Tidy path) (h : d.Reached path) :
    ∀ l, l <:+ path → d.obstacle? l = none → d.Reached l :=
  fun _ hl _ => h.of_suffix hd hpath hl

/-- **A way is there, or something is missing, or it is blocked.**  Where it is blocked, everything
before that is there. -/
theorem reach_cases (hd : d.Sound) (hpath : Tidy path) :
    (d.Reached path ∧ d.obstacle? path = none) ∨ d.reach path = .error .notFound ∨
      ∃ e, d.obstacle? path = some e ∧ d.reach path = .error (beyond e) ∧
        ∀ l, l <:+ path → d.obstacle? l = none → d.Reached l := by
  induction path with
  | nil => exact Or.inl ⟨requireDirectory_of_directory hd.cwd_directory, rfl⟩
  | cons c front ih =>
      by_cases hc : c = .root
      · subst hc
        obtain rfl : front = [] := hpath
        exact Or.inl ⟨rfl, rfl⟩
      rcases ih hpath.tail with ⟨hfront, hfree⟩ | hmissing | ⟨e, hblocked, hreach, hbefore⟩
      · have hreach := reach_cons_of_reached hc hfront
        have hobstacle := obstacle?_cons_of_free (c := c) hfree
        have hbefore := hfront.forall_suffix hd hpath.tail
        cases hfits : c.fits with
        | false =>
            rw [hfits] at hreach hobstacle
            exact Or.inr (Or.inr ⟨_, hobstacle, hreach, forall_suffix_of_blocked hobstacle hbefore⟩)
        | true =>
            rw [hfits] at hreach hobstacle
            change d.reach (c :: front) = d.requireDirectory (spot d.cwd (c :: front)) at hreach
            change _ = ite _ _ _ at hobstacle
            cases hentry : d.entry? (spot d.cwd (c :: front)) with
            | none =>
                refine Or.inr (Or.inl (hreach.trans ?_))
                rw [requireDirectory, hentry]
            | some e =>
                cases e with
                | directory =>
                    refine Or.inl ⟨hreach.trans (requireDirectory_of_directory hentry), ?_⟩
                    rw [hobstacle, holdsFile, hentry]
                    rfl
                | file content =>
                    have hexists : d.obstacle? (c :: front) = some .exists := by
                      rw [hobstacle, holdsFile, hentry]
                      rfl
                    refine Or.inr (Or.inr ⟨_, hexists, hreach.trans ?_,
                      forall_suffix_of_blocked hexists hbefore⟩)
                    rw [requireDirectory, hentry]
                    rfl
      · exact Or.inr (Or.inl (reach_cons_of_error hc hmissing))
      · have hblocked' := obstacle?_cons_of_blocked (c := c) hblocked
        refine Or.inr (Or.inr ⟨beyond e, hblocked', ?_, forall_suffix_of_blocked hblocked' hbefore⟩)
        rw [reach_cons_of_error hc hreach]
        unfold beyond
        split <;> rfl

/-- Nothing stands in a way that is there. -/
theorem Reached.obstacle?_eq (hd : d.Sound) (hpath : Tidy path) (h : d.Reached path) :
    d.obstacle? path = none := by
  rcases reach_cases hd hpath with ⟨-, hfree⟩ | hmissing | ⟨e, -, hreach, -⟩
  · exact hfree
  · cases h.symm.trans hmissing
  · cases h.symm.trans hreach

/-- A directory is there once it is made. -/
theorem Reached.put {s : String} (h : d.Reached front)
    (hfits : (PathStep.name s).fits = true) :
    (d.put (spot d.cwd (.name s :: front)) .directory).Reached (.name s :: front) := by
  have hentry := entry?_put (List.concat_ne_nil s (spot d.cwd front)) d .directory
  have hfront : (d.put (spot d.cwd (.name s :: front)) .directory).Reached front := by
    refine h.mono rfl fun q hq => ?_
    rw [spot, hentry]
    split
    · rfl
    · exact hq
  rw [Reached, reach_cons_of_reached (by simp) hfront, if_pos hfits]
  refine requireDirectory_of_directory ?_
  change entry? (d.put (spot d.cwd front ++ [s]) .directory) (spot d.cwd front ++ [s]) = _
  rw [hentry, if_pos rfl]

/-- What cannot be followed up to somewhere cannot be followed further. -/
theorem reach_of_suffix (hd : d.Sound) (hpath : Tidy path) (hl : l <:+ path)
    (h : d.reach l = .error e) : d.reach path = .error e := by
  induction path with
  | nil => rwa [List.suffix_nil.1 hl] at h
  | cons c front ih =>
      rcases List.suffix_cons_iff.1 hl with rfl | hfront
      · exact h
      · refine reach_cons_of_error ?_ (ih hpath.tail hfront)
        rintro rfl
        obtain rfl : front = [] := hpath
        obtain rfl : l = [] := List.suffix_nil.1 hfront
        rw [reach, requireDirectory_of_directory hd.cwd_directory] at h
        cases h

/-- Where a way is blocked right after what is there, it does not fail for something missing. -/
theorem reach_ne_notFound (hd : d.Sound) (hpath : Tidy path) (hl : c :: front <:+ path)
    (hfront : d.Reached front) (hblocked : d.obstacle? (c :: front) ≠ none) :
    d.reach path ≠ .error .notFound := by
  have hhere := hpath.of_suffix hl
  rcases reach_cases hd hhere with ⟨-, hfree⟩ | hmissing | ⟨e, he, hreach, -⟩
  · exact absurd hfree hblocked
  · -- what is missing is no obstacle
    have hc : c ≠ .root := by
      rintro rfl
      cases hmissing
    have hfree := (reach_cases hd hhere.tail).resolve_right (by
      rintro (hnone | ⟨e, -, hreach, -⟩)
      · cases hfront.symm.trans hnone
      · cases hfront.symm.trans hreach)
    rw [obstacle?_cons_of_free hfree.2] at hblocked
    rw [reach_cons_of_reached hc hfront] at hmissing
    split at hmissing
    case isFalse => cases hmissing
    case isTrue hfits =>
        rw [hfits, holdsFile] at hblocked
        unfold requireDirectory at hmissing
        split at hmissing
        case h_1 => cases hmissing
        case h_2 => cases hmissing
        case h_3 hentry =>
            rw [hentry] at hblocked
            exact absurd rfl hblocked
  · intro hnone
    rw [reach_of_suffix hd hpath hl hreach, Except.error.injEq, beyond] at hnone
    split at hnone
    · cases hnone
    · exact obstacle?_ne_notFound d _ (he.trans (congrArg some hnone))

/-- What is blocked, but not by a long name, is blocked by a file. -/
theorem exists_file_of_blocked (h : d.obstacle? path = some e) (he : e ≠ .nameTooLong) :
    ∃ c front, c :: front <:+ path ∧ d.obstacle? (c :: front) = some .exists := by
  induction path generalizing e with
  | nil => cases h
  | cons c front ih =>
      cases hfront : d.obstacle? front with
      | none =>
          have hhere := h
          rw [obstacle?_cons_of_free hfront] at h
          split at h
          case isTrue =>
              cases h
              exact absurd rfl he
          case isFalse =>
              split at h
              case isTrue =>
                  cases h
                  exact ⟨c, front, List.suffix_rfl, hhere⟩
              case isFalse => cases h
      | some e' =>
          rw [obstacle?_cons_of_blocked hfront, Option.some.injEq] at h
          have he' : e' ≠ .nameTooLong := by
            rintro rfl
            exact he h.symm
          obtain ⟨c', front', hl, hexists⟩ := ih hfront he'
          exact ⟨c', front', hl.trans (List.suffix_cons c front), hexists⟩

/-- What stands in the way depends on the files on the way only. -/
theorem obstacle?_congr {d' : Disk} (hcwd : d'.cwd = d.cwd)
    (h : ∀ l, l <:+ path → d'.holdsFile (spot d.cwd l) = d.holdsFile (spot d.cwd l)) :
    d'.obstacle? path = d.obstacle? path := by
  induction path with
  | nil => rfl
  | cons c front ih =>
      rw [obstacle?, obstacle?, ih fun l hl => h l (hl.trans (List.suffix_cons c front)), hcwd,
        h _ List.suffix_rfl]

/-- Whatever blocks a way by being a file comes right after what is there. -/
def Straight (d : Disk) (path : List PathStep) : Prop :=
  ∀ c front, c :: front <:+ path → d.obstacle? (c :: front) = some .exists → d.Reached front

end Way

/-! ### Operations by the end of the way -/

section Operations

variable {c : PathStep} {front path : List PathStep} {p : FilePath}

/-- A path leads to a directory if it can be followed. -/
theorem isDirectory_eq (d : Disk) (hflaw : p.flaw? = none) :
    d.isDirectory p = (d.reach p.components.reverse).isOk := by
  rw [← foldlM_segments, isDirectory, resolve, origin_eq, hflaw]
  cases hwalk : p.segments.foldlM d.enter (if p.isAbsolute then [] else d.cwd) with
  | error e => simp only [hwalk, bind, Except.bind, Except.isOk, Except.toBool]
  | ok q =>
      have hlast : ( d.entry? q == some .directory) = (d.requireDirectory q).isOk := by
        unfold requireDirectory
        split <;> rename_i h <;> rw [h] <;> rfl
      simp only [hwalk, bind, Except.bind]
      rw [← hlast]
      cases p.hasFinalSlash with
      | false => rfl
      | true =>
          cases hq : d.requireDirectory q with
          | error e =>
              rw [hlast, hq]
              rfl
          | ok r =>
              obtain ⟨-, rfl⟩ := requireDirectory_eq_ok_iff.1 hq
              rfl

theorem find_flawed (d : Disk) {e : DiskFault} (hflaw : p.flaw? = some e) :
    d.find p = .error e := by
  rw [find, resolve, origin_eq, hflaw]
  rfl

/-- A path that no call takes leads nowhere. -/
theorem isDirectory_flawed (d : Disk) {e : DiskFault} (hflaw : p.flaw? = some e) :
    d.isDirectory p = false := by
  rw [isDirectory, resolve, origin_eq, hflaw]
  rfl

theorem makeDirectory_flawed (d : Disk) {e : DiskFault} (hflaw : p.flaw? = some e) :
    d.makeDirectory p = .error e := by
  rw [makeDirectory, locate, origin_eq, hflaw]
  rfl

/-- A directory can be made where a way ends that is there, except for what is there already. -/
theorem makeDirectory_name (d : Disk) {s : String} (hpath : Tidy (.name s :: front))
    (hflaw : (FilePath.ofComponents (.name s :: front).reverse).flaw? = none) :
    d.makeDirectory (.ofComponents (.name s :: front).reverse) =
      d.reach front >>= fun p =>
        if (PathStep.name s).fits then
          if ( d.entry? (p ++ [s])).isSome then .error .exists
          else .ok (d.put (p ++ [s]) .directory)
        else .error .nameTooLong := by
  have hsegments : (FilePath.ofComponents (PathStep.name s :: front).reverse).segments =
      front.reverse.filterMap PathStep.segment? ++ [s] := by
    rw [FilePath.segments_ofComponents hpath, List.reverse_cons, List.filterMap_append]
    rfl
  have hlocate := locate_of_name d hflaw hsegments hpath.1.ne_here hpath.1.ne_up
  rw [FilePath.components_ofComponents hpath] at hlocate
  rw [makeDirectory, hlocate]
  simp only [bind_assoc, checkName_eq]
  refine bind_congr fun q => ?_
  simp only [bind, Except.bind]
  cases (PathStep.name s).fits <;> rfl

/-- Nothing can be made where a path ends with dots: a directory is there already. -/
theorem makeDirectory_dots (d : Disk) (hpath : Tidy (c :: front)) (hc : c = .here ∨ c = .up)
    (hflaw : (FilePath.ofComponents (c :: front).reverse).flaw? = none) :
    d.makeDirectory (.ofComponents (c :: front).reverse) =
      d.reach front >>= fun _ => .error .exists := by
  have hsegments : (FilePath.ofComponents (c :: front).reverse).segments =
      (FilePath.ofComponents front.reverse).segments ++ [c.text] := by
    rw [FilePath.segments_ofComponents hpath, FilePath.segments_ofComponents hpath.tail,
      List.reverse_cons, List.filterMap_append]
    rcases hc with rfl | rfl <;> rfl
  have habsolute : (FilePath.ofComponents (c :: front).reverse).isAbsolute =
      (FilePath.ofComponents front.reverse).isAbsolute := by
    rw [FilePath.isAbsolute_ofComponents hpath, FilePath.isAbsolute_ofComponents hpath.tail]
    cases front with
    | nil => rcases hc with rfl | rfl <;> decide
    | cons c' front => rw [List.getLast?_cons_cons]
  have hdots : c.text = "." ∨ c.text = ".." := by
    rcases hc with rfl | rfl
    · exact Or.inl rfl
    · exact Or.inr rfl
  rw [makeDirectory, locate_of_dots d hflaw hsegments hdots, habsolute, foldlM_segments,
    FilePath.components_ofComponents hpath.tail, bind_assoc]
  rfl

/-- What can come of making a directory at the end of a way. -/
inductive Makes (d : Disk) : List PathStep → Except DiskFault Disk → Prop
  /-- It is made in a directory that is there. -/
  | made {s : String} {front : List PathStep} (hfront : d.Reached front)
      (hfits : (PathStep.name s).fits = true)
      (hnone : d.entry? (spot d.cwd (.name s :: front)) = none) :
      Makes d (.name s :: front) (.ok (d.put (spot d.cwd (.name s :: front)) .directory))
  /-- Something before it is missing. -/
  | missing {c : PathStep} {front : List PathStep} (hmissing : d.reach front = .error .notFound) :
      Makes d (c :: front) (.error .notFound)
  /-- It is there already. -/
  | there {path : List PathStep} (hthere : d.Reached path) : Makes d path (.error .exists)
  /-- It cannot be made. -/
  | blocked {path : List PathStep} {e : DiskFault} (hblocked : d.obstacle? path = some e)
      (hbefore : ∀ l, l <:+ path → d.obstacle? l = none → d.Reached l) : Makes d path (.error e)

/-- What stands before the last component decides, unless all of it is there. -/
theorem makes_bind (hd : d.Sound) (hpath : Tidy front) {make : Place → Except DiskFault Disk}
    (h : d.Reached front → Makes d (c :: front) (make (spot d.cwd front))) :
    Makes d (c :: front) (d.reach front >>= make) := by
  rcases reach_cases hd hpath with ⟨hfront, -⟩ | hmissing | ⟨e, hblocked, hreach, hbefore⟩
  · rw [show d.reach front = .ok _ from hfront]
    exact h hfront
  · rw [hmissing]
    exact .missing hmissing
  · rw [hreach]
    have hblocked' := obstacle?_cons_of_blocked (c := c) hblocked
    exact .blocked hblocked' (forall_suffix_of_blocked hblocked' hbefore)

/-- In a directory that is there, a name that fits and does not stand for anything yet can be
made. -/
theorem makes_name (hd : d.Sound) {s : String} (hpath : Tidy (.name s :: front))
    (hfront : d.Reached front) :
    Makes d (.name s :: front)
      (if (PathStep.name s).fits then
        if ( d.entry? (spot d.cwd front ++ [s])).isSome then .error .exists
        else .ok (d.put (spot d.cwd front ++ [s]) .directory)
      else .error .nameTooLong) := by
  have hbefore := hfront.forall_suffix hd hpath.tail
  have hobstacle := obstacle?_cons_of_free (c := .name s) (hfront.obstacle?_eq hd hpath.tail)
  cases hfits : (PathStep.name s).fits with
  | false =>
      rw [hfits] at hobstacle
      exact .blocked hobstacle (forall_suffix_of_blocked hobstacle hbefore)
  | true =>
      rw [hfits] at hobstacle
      change _ = ite _ _ _ at hobstacle
      cases hentry : d.entry? (spot d.cwd front ++ [s]) with
      | none => exact .made hfront hfits hentry
      | some e =>
          cases e with
          | directory =>
              refine .there ?_
              rw [Reached, reach_cons_of_reached PathStep.noConfusion hfront, hfits]
              exact requireDirectory_of_directory hentry
          | file content =>
              have hexists : d.obstacle? (.name s :: front) = some .exists := by
                rw [hobstacle, holdsFile,
                  show d.entry? (spot d.cwd (.name s :: front)) = _ from hentry]
                rfl
              exact .blocked hexists (forall_suffix_of_blocked hexists hbefore)

/-- Dots stand for a directory that is there, if the way before them is. -/
theorem Reached.dots (hd : d.Sound) (hc : c = .here ∨ c = .up) (h : d.Reached front) :
    d.Reached (c :: front) := by
  rcases hc with rfl | rfl
  · exact h
  · have hup := hd.dropLast_directory (spot d.cwd front) (by rw [h.directory]; rfl)
    rw [Reached, reach, show d.reach front = .ok _ from h]
    exact requireDirectory_of_directory hup

/-- **What can come of making a directory**: it is made, or something before it is missing, or it is
there already, or it cannot be made. -/
theorem makes_makeDirectory (hd : d.Sound) (hpath : Tidy (c :: front))
    (hflaw : (FilePath.ofComponents (c :: front).reverse).flaw? = none) :
    Makes d (c :: front) (d.makeDirectory (.ofComponents (c :: front).reverse)) := by
  have hdots (hc : c = .here ∨ c = .up) :
      Makes d (c :: front) (d.makeDirectory (.ofComponents (c :: front).reverse)) := by
    rw [makeDirectory_dots d hpath hc hflaw]
    exact makes_bind hd hpath.tail fun hfront => .there (hfront.dots hd hc)
  cases c with
  | root =>
      obtain rfl : front = [] := hpath
      have hexists : d.makeDirectory (.ofComponents [PathStep.root].reverse) = .error .exists := by
        rw [makeDirectory, locate, origin_eq, hflaw]
        rfl
      rw [hexists]
      exact .there rfl
  | here => exact hdots (Or.inl rfl)
  | up => exact hdots (Or.inr rfl)
  | name s =>
      rw [makeDirectory_name d hpath hflaw]
      exact makes_bind hd hpath.tail (makes_name hd hpath)

section File

variable {before : List String} {s : String}

/-- A file is found where a way ends that is there. -/
theorem find_eq (hflaw : p.flaw? = none) (hp : p.segments = before ++ [s]) (hhere : s ≠ ".")
    (hup : s ≠ "..") (hway : d.Reached p.components.reverse.tail) :
    d.find p =
      if (PathStep.name s).fits then
        match d.entry? (spot d.cwd p.components.reverse.tail ++ [s]) with
        | some (.file content) =>
          if p.hasFinalSlash then .error .notDirectory
          else .ok (spot d.cwd p.components.reverse.tail ++ [s], content)
        | some .directory => .error .isDirectory
        | none => .error .notFound
      else .error .nameTooLong := by
  -- the way ends in a directory, from which one more step is taken
  have hfront := foldlM_front d hp hhere hup
  rw [show d.reach _ = .ok _ from hway] at hfront
  have hdirectory := requireDirectory_of_directory hway.directory
  have hwalk : p.segments.foldlM d.enter (if p.isAbsolute then [] else d.cwd) =
      d.enter (spot d.cwd p.components.reverse.tail) s := by
    rw [hp, List.foldlM_append]
    cases hbefore : before.foldlM d.enter (if p.isAbsolute then [] else d.cwd) with
    | error e =>
        rw [hbefore] at hfront
        cases hfront
    | ok q =>
        rw [hbefore] at hfront
        rw [(requireDirectory_eq_ok_iff.1 hfront).2]
        exact bind_pure (d.enter q s)
  rw [find, resolve, origin_eq, hflaw]
  simp only [bind, Except.bind, hwalk, enter, hdirectory, if_neg hhere, if_neg hup, checkName_eq]
  cases (PathStep.name s).fits with
  | false => rfl
  | true =>
      simp only [if_true]
      cases hentry : d.entry? (spot d.cwd p.components.reverse.tail ++ [s]) with
      | none => rfl
      | some e =>
          simp only [Option.isSome_some, if_true, pure, Except.pure]
          cases p.hasFinalSlash with
          | false =>
              simp only [hentry, Bool.false_eq_true, if_false]
              cases e <;> rfl
          | true =>
              simp only [if_true, requireDirectory, hentry]
              cases e with
              | directory =>
                  simp only [hentry]
                  rfl
              | file content => rfl

/-- A file can be made where a way ends that is there. -/
theorem create_eq (hflaw : p.flaw? = none) (hp : p.segments = before ++ [s]) (hhere : s ≠ ".")
    (hup : s ≠ "..") (hway : d.Reached p.components.reverse.tail)
    (hfree : d.entry? (spot d.cwd p.components.reverse.tail ++ [s]) = none) :
    d.create p =
      if p.hasFinalSlash then .error .isDirectory
      else if (PathStep.name s).fits then
        .ok (spot d.cwd p.components.reverse.tail ++ [s],
          d.put (spot d.cwd p.components.reverse.tail ++ [s]) (.file .empty))
      else .error .nameTooLong := by
  rw [create, filePlace, locate_of_name d hflaw hp hhere hup, show d.reach _ = .ok _ from hway]
  simp only [bind, Except.bind, checkName_eq]
  cases p.hasFinalSlash with
  | true => rfl
  | false =>
      cases (PathStep.name s).fits with
      | false => rfl
      | true =>
          simp only [if_true, hfree]
          rfl

end File

end Operations

end Disk

end Groundwork
