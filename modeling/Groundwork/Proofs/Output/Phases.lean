/-
Calls for one file among calls for others.

Every phase of a file comes with what is known of the disk then: how far the way is there, and what
stands at the place of the file.  A call for the file leads from one such phase to the next.  A call
for another file, if neither is in the way of the other, changes nothing that is known: directories
stay, and nobody else goes where the file goes.

Main definitions:

* `Groundwork.Disk.Spread` — a disk that differs from the first one only by directories on the ways
  of some files and by these files;
* `Groundwork.Disk.Respects` — a change of the disk that leaves alone what is known of a file;
* `Groundwork.Phase.Holds` — what is known of the disk when a file is at a phase.

Main results:

* `Groundwork.Phase.Holds.mono` — nothing that is known is lost by changes made for other files;
* `Groundwork.Phase.Holds.advances` — **the next call for a file keeps what is known of it**, and
  respects all files apart from it;
* `Groundwork.Phase.holds_firstPhase` — what is known before the first call.
-/
import Groundwork.Proofs.Output.Fates
import Mathlib.Data.Multiset.Basic

set_option relaxedAutoImplicit false
set_option autoImplicit false

namespace Groundwork

open PathStep (Tidy)

variable {d₀ d d' : Disk} {dest : FilePath} {files : Multiset OutputFile} {f g : OutputFile}

/-! ### Disks on which files are written -/

/-- The files go to plain paths, and no two of them are in the way of each other. -/
structure Spaced (files : Multiset OutputFile) : Prop where
  plain : ∀ f ∈ files, f.path.Plain
  apart : ∀ f rest, files = f ::ₘ rest → ∀ g ∈ rest, f.Apart g

theorem Spaced.eq_or_apart (h : Spaced files) (hf : f ∈ files) (hg : g ∈ files) :
    f = g ∨ f.Apart g := by
  by_cases heq : g = f
  · exact Or.inl heq.symm
  · obtain ⟨rest, hrest⟩ := Multiset.exists_cons_of_mem hf
    rw [hrest, Multiset.mem_cons] at hg
    exact Or.inr (h.apart f rest hrest g (hg.resolve_left heq))

namespace Disk

/-- A directory on the way of a file that is made for it. -/
def Paved (d₀ : Disk) (dest : FilePath) (f : OutputFile) (q : Place) : Prop :=
  f.flawAbove? dest = none ∧ d₀.entry? q = none ∧
    ∃ l, l <:+ f.way dest ∧ d₀.obstacle? l = none ∧ spot d₀.cwd l = q

/-- A disk that differs from the first one only by directories on the ways of some files and by
these files. -/
structure Spread (d₀ : Disk) (dest : FilePath) (files : Multiset OutputFile) (d : Disk) : Prop where
  cwd_eq : d.cwd = d₀.cwd
  sound : d.Sound
  entry : ∀ q, d.entry? q = d₀.entry? q ∨
    ( d.entry? q = some .directory ∧ ∃ f ∈ files, Paved d₀ dest f q) ∨
    ((∃ content, d.entry? q = some (.file content)) ∧
      ∃ f ∈ files, f.fate d₀ dest = .filled ∧ q = f.place dest d₀.cwd)

/-- A change of the disk that leaves alone what is known of a file. -/
structure Respects (dest : FilePath) (f : OutputFile) (d d' : Disk) : Prop where
  cwd_eq : d'.cwd = d.cwd
  directory : ∀ q, d.entry? q = some .directory → d'.entry? q = some .directory
  own : f.place dest d.cwd ∉ f.lane dest d.cwd →
    d'.entry? (f.place dest d.cwd) = d.entry? (f.place dest d.cwd)

theorem Respects.refl (dest : FilePath) (f : OutputFile) (d : Disk) : d.Respects dest f d :=
  ⟨rfl, fun _ h => h, fun _ => rfl⟩

theorem Reached.respects {path : List PathStep} (h : d.Reached path) (hd : d.Respects dest f d') :
    d'.Reached path := h.mono hd.cwd_eq hd.directory

namespace Spread

theorem refl (hd : d₀.Sound) : Spread d₀ dest files d₀ := ⟨rfl, hd, fun _ => Or.inl rfl⟩

/-- What is there stays, as a directory or as a file. -/
theorem isSome_of_isSome (h : Spread d₀ dest files d) {q : Place}
    (hq : ( d₀.entry? q).isSome = true) : ( d.entry? q).isSome = true := by
  rcases h.entry q with heq | ⟨hdirectory, -⟩ | ⟨⟨content, hfile⟩, -⟩
  · rwa [heq]
  · rw [hdirectory]; rfl
  · rw [hfile]; rfl

theorem directory_of_directory (h : Spread d₀ dest files d) {q : Place}
    (hq : d₀.entry? q = some .directory) : d.entry? q = some .directory := by
  rcases h.entry q with heq | ⟨hdirectory, -⟩ | ⟨-, f, -, hfate, rfl⟩
  · rwa [heq]
  · exact hdirectory
  · exact absurd hq (OutputFile.of_fate_eq_filled hfate).2.1

theorem reached_of_reached (h : Spread d₀ dest files d) {path : List PathStep}
    (hpath : d₀.Reached path) : d.Reached path :=
  hpath.mono h.cwd_eq fun _ => h.directory_of_directory

/-- The files on the way of a file are those that were there. -/
theorem holdsFile_eq (h : Spread d₀ dest files d) (hfiles : Spaced files) (hf : f ∈ files)
    {q : Place} (hq : q ∈ f.lane dest d₀.cwd) : d.holdsFile q = d₀.holdsFile q := by
  rcases h.entry q with heq | ⟨hdirectory, -, -, -, hnone, -⟩ | ⟨-, g, hg, hfate, rfl⟩
  · rw [holdsFile, holdsFile, heq]
  · rw [holdsFile, holdsFile, hdirectory, hnone]
  · have hlane := (OutputFile.of_fate_eq_filled hfate).1
    rcases hfiles.eq_or_apart hg hf with rfl | hapart
    · exact absurd hq hlane
    · exact absurd (OutputFile.place_mem_lane (hfiles.plain g hg) (hfiles.plain f hf) hapart hq)
        hlane

/-- What stands in the way of a file is what stood there before. -/
theorem obstacle?_eq (h : Spread d₀ dest files d) (hfiles : Spaced files) (hf : f ∈ files)
    {l : List PathStep} (hl : l <:+ f.way dest) : d.obstacle? l = d₀.obstacle? l :=
  obstacle?_congr h.cwd_eq fun _ hm =>
    h.holdsFile_eq hfiles hf (OutputFile.spot_mem_lane (hm.trans hl))

end Spread

end Disk

/-! ### What is known at a phase -/

namespace Phase

/-- Something above the file is made again: the way is blocked by no file, or by one behind
something that was missing. -/
structure Descended (d₀ : Disk) (dest : FilePath) (f : OutputFile) : Prop where
  flawless : f.flawAbove? dest = none
  obstacle_eq : d₀.Straight (f.way dest) →
    ∀ e, d₀.obstacle? (f.way dest) = some e → e = .nameTooLong

/-- Nobody has touched the file. -/
def Untouched (d₀ : Disk) (dest : FilePath) (f : OutputFile) (d : Disk) : Prop :=
  f.place dest d₀.cwd ∉ f.lane dest d₀.cwd →
    d.entry? (f.place dest d₀.cwd) = d₀.entry? (f.place dest d₀.cwd)

/-- Everything that comes before an obstacle is there. -/
def Before (d₀ : Disk) (path : List PathStep) (d : Disk) : Prop :=
  ∀ l, l <:+ path → d₀.obstacle? l = none → d.Reached l

/-- What is known of the disk when a file is at a phase. -/
inductive Holds (d₀ : Disk) (dest : FilePath) (f : OutputFile) (d : Disk) : Phase → Prop
  | making {path later : List PathStep} {again : Bool}
      (hway : later.reverse ++ path = f.way dest) (hown : Untouched d₀ dest f d)
      (hlater : later ≠ [] → Descended d₀ dest f)
      (hagain : again = true → f.flawAbove? dest = none ∧ d.Reached path.tail) :
      Holds d₀ dest f d (.making path later again)
  | checking {path later : List PathStep} {e : DiskFault}
      (hway : later.reverse ++ path = f.way dest) (hown : Untouched d₀ dest f d)
      (hlater : later ≠ [] → Descended d₀ dest f) (hpath : path ≠ [])
      (hcause : (f.flawAbove? dest = some e ∧ later = []) ∨
        f.flawAbove? dest = none ∧
          (d.Reached path ∨ d₀.obstacle? path = some e ∧ Before d₀ path d)) :
      Holds d₀ dest f d (.checking path later e)
  | opening (hflaw : f.flawAbove? dest = none) (hway : d.Reached (f.way dest))
      (hown : Untouched d₀ dest f d) :
      Holds d₀ dest f d .opening
  | asking {old : ByteArray} (hflaw : f.flawAbove? dest = none) (hway : d.Reached (f.way dest))
      (hown : Untouched d₀ dest f d) (hlane : f.place dest d₀.cwd ∉ f.lane dest d₀.cwd)
      (hentry : d.entry? (f.place dest d₀.cwd) = some (.file old))
      (hfate : f.fate d₀ dest = if f.mayReplace old then .filled else .kept) :
      Holds d₀ dest f d (.asking (f.place dest d₀.cwd))
  | creating (hflaw : f.flawAbove? dest = none) (hway : d.Reached (f.way dest))
      (hown : Untouched d₀ dest f d) (hlane : f.place dest d₀.cwd ∉ f.lane dest d₀.cwd)
      (hentry : d.entry? (f.place dest d₀.cwd) = none)
      (hpath : (dest.join f.path).flaw? = none) (hfits : (PathStep.name f.name).fits = true)
      (hfate : f.fate d₀ dest =
        if f.path.hasFinalSlash then .refused .isDirectory else .filled) :
      Holds d₀ dest f d .creating
  | emptying {old : ByteArray} {offset : ℕ} (hway : d.Reached (f.way dest))
      (hfate : f.fate d₀ dest = .filled)
      (hentry : d.entry? (f.place dest d₀.cwd) = some (.file old)) :
      Holds d₀ dest f d (.emptying (f.place dest d₀.cwd) offset)
  | rewinding {offset : ℕ} (hway : d.Reached (f.way dest)) (hfate : f.fate d₀ dest = .filled)
      (hentry : d.entry? (f.place dest d₀.cwd) = some (.file .empty)) :
      Holds d₀ dest f d (.rewinding (f.place dest d₀.cwd) offset)
  | filling {content : ByteArray} {offset : ℕ} {left : List UInt8} (hway : d.Reached (f.way dest))
      (hfate : f.fate d₀ dest = .filled)
      (hentry : d.entry? (f.place dest d₀.cwd) = some (.file content))
      (hbody : content.data.toList ++ left = f.body.data.toList)
      (hoffset : offset = content.data.toList.length) :
      Holds d₀ dest f d (.filling (f.place dest d₀.cwd) offset left)
  | finished {outcome : Except Fault Unit} (hsuits : f.Suits d₀ dest outcome)
      (hbefore : f.flawAbove? dest = none → Before d₀ (f.way dest) d)
      (hown : f.fate d₀ dest ≠ .filled → Untouched d₀ dest f d)
      (hfilled : f.fate d₀ dest = .filled →
        d.entry? (f.place dest d₀.cwd) = some (.file f.body)) :
      Holds d₀ dest f d (.finished outcome)

/-- Nothing that is known is lost by changes that respect the file. -/
theorem Holds.mono {phase : Phase} (h : Holds d₀ dest f d phase) (hcwd : d.cwd = d₀.cwd)
    (hd : d.Respects dest f d') : Holds d₀ dest f d' phase := by
  have hkept := hd.own
  rw [hcwd] at hkept
  have huntouched (hown : Untouched d₀ dest f d) : Untouched d₀ dest f d' :=
    fun hlane => (hkept hlane).trans (hown hlane)
  have hentry {e : DiskEntry} (hfate : f.fate d₀ dest = .filled)
      (he : d.entry? (f.place dest d₀.cwd) = some e) :
      d'.entry? (f.place dest d₀.cwd) = some e :=
    (hkept (OutputFile.of_fate_eq_filled hfate).1).trans he
  have hbefore {path : List PathStep} (h : Before d₀ path d) : Before d₀ path d' :=
    fun l hl hfree => (h l hl hfree).respects hd
  cases h with
  | making hway hown hlater hagain =>
      exact .making hway (huntouched hown) hlater fun h => ⟨(hagain h).1, (hagain h).2.respects hd⟩
  | checking hway hown hlater hpath hcause =>
      refine .checking hway (huntouched hown) hlater hpath ?_
      rcases hcause with hflaw | ⟨hflaw, hthere | ⟨hblocked, hthere⟩⟩
      · exact Or.inl hflaw
      · exact Or.inr ⟨hflaw, Or.inl (hthere.respects hd)⟩
      · exact Or.inr ⟨hflaw, Or.inr ⟨hblocked, hbefore hthere⟩⟩
  | opening hflaw hway hown => exact .opening hflaw (hway.respects hd) (huntouched hown)
  | asking hflaw hway hown hlane hfile hfate =>
      exact .asking hflaw (hway.respects hd) (huntouched hown) hlane ((hkept hlane).trans hfile)
        hfate
  | creating hflaw hway hown hlane hnone hpath hfits hfate =>
      exact .creating hflaw (hway.respects hd) (huntouched hown) hlane ((hkept hlane).trans hnone)
        hpath hfits hfate
  | emptying hway hfate hfile =>
      exact .emptying (hway.respects hd) hfate (hentry hfate hfile)
  | rewinding hway hfate hfile =>
      exact .rewinding (hway.respects hd) hfate (hentry hfate hfile)
  | filling hway hfate hfile hbody hoffset =>
      exact .filling (hway.respects hd) hfate (hentry hfate hfile) hbody hoffset
  | finished hsuits hthere hown hfilled =>
      exact .finished hsuits (fun hflaw => hbefore (hthere hflaw))
        (fun hfate => huntouched (hown hfate))
        fun hfate => hentry hfate (hfilled hfate)

/-! ### The next call -/

/-- What a call for a file does: what is known of the file at the next phase is true, the disk is
still one on which files are written, and files apart are respected. -/
structure Advances (d₀ : Disk) (dest : FilePath) (files : Multiset OutputFile) (f : OutputFile)
    (d : Disk) (r : Disk × Phase) : Prop where
  holds : Holds d₀ dest f r.1 r.2
  spread : d₀.Spread dest files r.1
  respects : ∀ g, g.path.Plain → f.Apart g → d.Respects dest g r.1

/-- A call that changes nothing. -/
theorem Advances.of_holds {phase : Phase} (hd : d₀.Spread dest files d)
    (h : Holds d₀ dest f d phase) : Advances d₀ dest files f d (d, phase) :=
  ⟨h, hd, fun g _ _ => .refl dest g d⟩

/-- A directory on the way is there. -/
theorem holds_onward {path later : List PathStep} (hway : later.reverse ++ path = f.way dest)
    (hown : Untouched d₀ dest f d) (hlater : later ≠ [] → Descended d₀ dest f)
    (hflaw : f.flawAbove? dest = none) (hthere : d.Reached path) :
    Holds d₀ dest f d (onward path later) := by
  cases later with
  | nil =>
      refine .opening hflaw ?_ hown
      rwa [← hway]
  | cons c later =>
      refine .making ?_ hown (fun _ => hlater (List.cons_ne_nil c later)) fun _ => ⟨hflaw, hthere⟩
      rw [← hway, List.reverse_cons, List.append_assoc]
      rfl

section Next

variable (hfiles : Spaced files) (hf : f ∈ files) (hd : d₀.Spread dest files d)
include hd hfiles hf

/-- A directory on the way is made. -/
theorem advances_made {s : String} {front later : List PathStep}
    (hway : later.reverse ++ .name s :: front = f.way dest) (hown : Untouched d₀ dest f d)
    (hlater : later ≠ [] → Descended d₀ dest f) (hflaw : f.flawAbove? dest = none)
    (hfront : d.Reached front) (hfits : (PathStep.name s).fits = true)
    (hnone : d.entry? (Disk.spot d.cwd (.name s :: front)) = none) :
    Advances d₀ dest files f d
      (d.put (Disk.spot d.cwd (.name s :: front)) .directory, onward (.name s :: front) later) := by
  have hsuffix : .name s :: front <:+ f.way dest := ⟨_, hway⟩
  have hpath := (OutputFile.tidy_way dest (hfiles.plain f hf)).of_suffix hsuffix
  have hspot : Disk.spot d.cwd (.name s :: front) ∈ f.lane dest d₀.cwd := by
    rw [hd.cwd_eq]
    exact OutputFile.spot_mem_lane hsuffix
  have hentry (q : Place) :
      Disk.entry? (d.put (Disk.spot d.cwd (.name s :: front)) .directory) q =
        if Disk.spot d.cwd (.name s :: front) = q then some .directory else d.entry? q :=
    Disk.entry?_put (List.concat_ne_nil s (Disk.spot d.cwd front)) d .directory q
  -- what is made was missing from the start, and nothing stood in the way
  have hmissing : d₀.entry? (Disk.spot d.cwd (.name s :: front)) = none := by
    rw [← Option.not_isSome_iff_eq_none]
    intro hsome
    have hthere := hd.isSome_of_isSome hsome
    rw [hnone] at hthere
    cases hthere
  have hfree : d₀.obstacle? (.name s :: front) = none := by
    rw [← hd.obstacle?_eq hfiles hf hsuffix,
      Disk.obstacle?_cons_of_free (hfront.obstacle?_eq hd.sound hpath.tail), hfits,
      Disk.holdsFile, hnone]
    rfl
  constructor
  case holds =>
      refine holds_onward hway (fun hlane => ?_) hlater hflaw (hfront.put hfits)
      rw [hentry, if_neg]
      · exact hown hlane
      · intro heq
        exact hlane (heq ▸ hspot)
  case spread =>
      refine ⟨hd.cwd_eq, hd.sound.put hfront.directory (Or.inr rfl), fun q => ?_⟩
      rw [hentry]
      split
      case isTrue heq =>
          subst heq
          refine Or.inr (Or.inl ⟨rfl, f, hf, hflaw, hmissing, _, hsuffix, hfree, ?_⟩)
          rw [hd.cwd_eq]
      case isFalse => exact hd.entry q
  case respects =>
      intro g hg hapart
      refine ⟨rfl, fun q hq => ?_, fun hlane => ?_⟩
      · rw [hentry]
        split
        · rfl
        · exact hq
      · rw [hentry, if_neg]
        intro heq
        rw [heq, ← hd.cwd_eq] at hspot
        exact hlane (OutputFile.place_mem_lane hg (hfiles.plain f hf) hapart.symm hspot)

/-- The content of the file is replaced. -/
theorem advances_put {content : ByteArray} {phase : Phase} (hway : d.Reached (f.way dest))
    (hfate : f.fate d₀ dest = .filled)
    (hentry : d.entry? (f.place dest d₀.cwd) ≠ some .directory)
    (hholds : ∀ d', d'.Reached (f.way dest) →
      d'.entry? (f.place dest d₀.cwd) = some (.file content) → Holds d₀ dest f d' phase) :
    Advances d₀ dest files f d (d.put (f.place dest d₀.cwd) (.file content), phase) := by
  have hput (q : Place) : Disk.entry? (d.put (f.place dest d₀.cwd) (.file content)) q =
      if f.place dest d₀.cwd = q then some (.file content) else d.entry? q :=
    Disk.entry?_put (List.concat_ne_nil _ _) d (.file content) q
  have hkept : ∀ q, d.entry? q = some .directory →
      Disk.entry? (d.put (f.place dest d₀.cwd) (.file content)) q = some .directory := by
    intro q hq
    rw [hput, if_neg]
    · exact hq
    · rintro rfl
      exact hentry hq
  constructor
  case holds => exact hholds _ (hway.mono rfl hkept) (by rw [hput, if_pos rfl])
  case spread =>
      refine ⟨hd.cwd_eq, ?_, fun q => ?_⟩
      · rw [OutputFile.place, ← hd.cwd_eq] at hentry ⊢
        exact hd.sound.put hway.directory (Or.inl hentry)
      · rw [hput]
        split
        case isTrue heq => exact Or.inr (Or.inr ⟨⟨content, rfl⟩, f, hf, hfate, heq.symm⟩)
        case isFalse => exact hd.entry q
  case respects =>
      intro g hg hapart
      refine ⟨rfl, hkept, fun _ => ?_⟩
      rw [hput, if_neg]
      rw [hd.cwd_eq]
      exact OutputFile.place_ne (hfiles.plain f hf) hg hapart

/-- Something before a directory is missing. -/
theorem descended {c : PathStep} {front later : List PathStep}
    (hway : later.reverse ++ c :: front = f.way dest) (hlater : later ≠ [] → Descended d₀ dest f)
    (hflaw : f.flawAbove? dest = none) (hmissing : d.reach front = .error .notFound) :
    Descended d₀ dest f := by
  by_cases hnil : later = []
  · subst hnil
    refine ⟨hflaw, fun hstraight e he => ?_⟩
    by_contra hlong
    -- the file that blocks the way comes right after what was there from the start
    obtain ⟨c', front', hsuffix, hexists⟩ := Disk.exists_file_of_blocked he hlong
    have hthere := hd.reached_of_reached (hstraight c' front' hsuffix hexists)
    have hblocked : d.obstacle? (c' :: front') ≠ none := by
      rw [hd.obstacle?_eq hfiles hf hsuffix, hexists]
      exact nofun
    have htidy := OutputFile.tidy_way dest (hfiles.plain f hf)
    rw [← hway, List.reverse_nil, List.nil_append] at hsuffix htidy
    rcases List.suffix_cons_iff.1 hsuffix with heq | hsuffix
    · obtain ⟨rfl, rfl⟩ := List.cons.inj heq
      cases hthere.symm.trans hmissing
    · exact Disk.reach_ne_notFound hd.sound htidy.tail hsuffix hthere hblocked hmissing
  · exact hlater hnil

/-- The next call where a directory is made. -/
theorem advances_making {c : PathStep} {front later : List PathStep} {again : Bool} (n : ℕ)
    (hway : later.reverse ++ c :: front = f.way dest) (hown : Untouched d₀ dest f d)
    (hlater : later ≠ [] → Descended d₀ dest f)
    (hagain : again = true → f.flawAbove? dest = none ∧ d.Reached front) :
    Advances d₀ dest files f d (next f dest n d (.making (c :: front) later again)) := by
  have hsuffix : c :: front <:+ f.way dest := ⟨_, hway⟩
  have htidy := OutputFile.tidy_way dest (hfiles.plain f hf)
  have hpath := OutputFile.flawAbove?_eq (hsuffix.ne_nil (List.cons_ne_nil c front))
  rw [next_making]
  cases hflaw : f.flawAbove? dest with
  | some e =>
      have hlast : later = [] := by
        by_contra hmore
        cases hflaw.symm.trans (hlater hmore).flawless
      subst hlast
      rw [hflaw, ← hway, List.reverse_nil, List.nil_append] at hpath
      have hmissing : e ≠ .notFound := by
        rintro rfl
        rw [← hway] at htidy
        exact FilePath.flaw?_ne_notFound (FilePath.text_ofComponents_ne_empty htidy) hpath.symm
      rw [Disk.makeDirectory_flawed d hpath.symm]
      dsimp only
      rw [if_neg (by simp [hmissing])]
      exact .of_holds hd (.checking hway hown hlater (List.cons_ne_nil c front)
        (Or.inl ⟨hflaw, rfl⟩))
  | none =>
      have hflaw' := FilePath.flaw?_of_suffix htidy hsuffix (List.cons_ne_nil c front)
        (hpath.symm.trans hflaw)
      have hmakes := Disk.makes_makeDirectory hd.sound (htidy.of_suffix hsuffix) hflaw'
      generalize d.makeDirectory _ = made at hmakes ⊢
      cases hmakes with
      | made hfront hfits hnone =>
          exact advances_made hfiles hf hd hway hown hlater hflaw hfront hfits hnone
      | missing hmissing =>
          -- a directory that was asked for again has all directories before it
          have hfirst : again = false := by
            by_contra hsecond
            have hthere := (hagain (Bool.not_eq_false _ ▸ hsecond)).2
            cases hthere.symm.trans hmissing
          subst hfirst
          have hdown := descended hfiles hf hd hway hlater hflaw hmissing
          refine .of_holds hd (.making ?_ hown (fun _ => hdown) nofun)
          rw [← hway, List.reverse_cons, List.append_assoc]
          rfl
      | there hthere =>
          exact .of_holds hd (.checking hway hown hlater (List.cons_ne_nil c front)
            (Or.inr ⟨hflaw, Or.inl hthere⟩))
      | @blocked _ e hblocked hbefore =>
          have hfound : e ≠ .notFound := by
            rintro rfl
            exact Disk.obstacle?_ne_notFound d _ hblocked
          dsimp only
          rw [if_neg (by simp [hfound])]
          rw [hd.obstacle?_eq hfiles hf hsuffix] at hblocked
          refine .of_holds hd (.checking hway hown hlater (List.cons_ne_nil c front)
            (Or.inr ⟨hflaw, Or.inr ⟨hblocked, fun l hl hfree => hbefore l hl ?_⟩⟩))
          rw [hd.obstacle?_eq hfiles hf (hl.trans hsuffix), hfree]

/-- A way that is there has everything before it. -/
theorem before_of_reached (hway : d.Reached (f.way dest)) : Before d₀ (f.way dest) d :=
  fun _ hl _ => hway.of_suffix hd.sound (OutputFile.tidy_way dest (hfiles.plain f hf)) hl

omit hfiles hf hd in
/-- A file for which a directory cannot be made is refused. -/
theorem holds_refused {path later : List PathStep} {e : DiskFault}
    (hway : later.reverse ++ path = f.way dest) (hown : Untouched d₀ dest f d)
    (hlater : later ≠ [] → Descended d₀ dest f) (hflaw : f.flawAbove? dest = none)
    (hblocked : d₀.obstacle? path = some e) (hbefore : Before d₀ path d) :
    Holds d₀ dest f d (.finished (f.refusal dest e)) := by
  have hsuffix : path <:+ f.way dest := ⟨_, hway⟩
  obtain ⟨e', he', hbeyond⟩ := Disk.obstacle?_of_blocked hsuffix hblocked
  have hfate := OutputFile.fate_of_obstacle hflaw he'
  refine .finished (OutputFile.suits_refusal hfate fun hstraight => ?_) (fun _ l hl hfree => ?_)
    (fun _ => hown) ?_
  · by_cases hlast : later = []
    · subst hlast
      have hall : path = f.way dest := hway
      rw [hall, he'] at hblocked
      exact (Option.some.inj hblocked).symm
    · -- the way is blocked by a name that is too long, which is seen from everywhere
      rw [(hlater hlast).obstacle_eq hstraight e' he'] at hbeyond ⊢
      exact Disk.beyond_eq_nameTooLong_iff.1 hbeyond.symm
  · rcases List.suffix_or_suffix_of_suffix hl hsuffix with hl | hl
    · exact hbefore l hl hfree
    · cases hblocked.symm.trans (Disk.obstacle?_of_suffix hl hfree)
  · rw [hfate]
    exact nofun

/-- The next call where a directory could not be made. -/
theorem advances_checking {path later : List PathStep} {e : DiskFault} (n : ℕ)
    (h : Holds d₀ dest f d (.checking path later e)) :
    Advances d₀ dest files f d (next f dest n d (.checking path later e)) := by
  cases h with | checking hway hown hlater hpath hcause
  have hsuffix : path <:+ f.way dest := ⟨_, hway⟩
  have htidy := OutputFile.tidy_way dest (hfiles.plain f hf)
  have hflaws := OutputFile.flawAbove?_eq (hsuffix.ne_nil hpath)
  refine .of_holds hd ?_
  rcases hcause with ⟨hflaw, rfl⟩ | ⟨hflaw, hthere⟩
  · have hall : path = f.way dest := hway
    rw [hall, Disk.isDirectory_flawed d (hflaws.symm.trans hflaw)]
    refine .finished (OutputFile.suits_refusal (OutputFile.fate_of_flawAbove hflaw) fun _ => rfl)
      ?_ (fun _ => hown) ?_
    · rw [hflaw]
      exact nofun
    · rw [OutputFile.fate_of_flawAbove hflaw]
      exact nofun
  · have hdirectory : d.isDirectory (.ofComponents path.reverse) = (d.reach path).isOk := by
      rw [Disk.isDirectory_eq d
        (FilePath.flaw?_of_suffix htidy hsuffix hpath (hflaws.symm.trans hflaw)),
        FilePath.components_ofComponents (htidy.of_suffix hsuffix)]
    rw [hdirectory]
    rcases hthere with hthere | ⟨hblocked, hbefore⟩
    · rw [show d.reach path = .ok _ from hthere]
      exact holds_onward hway hown hlater hflaw hthere
    · have hmissing : (d.reach path).isOk = false := by
        cases hreach : d.reach path with
        | error e => rfl
        | ok q =>
            have hthere : d.Reached path := by
              rw [Disk.Reached, hreach, (Disk.spot_of_reach hreach).1]
            have hfree := hthere.obstacle?_eq hd.sound (htidy.of_suffix hsuffix)
            rw [hd.obstacle?_eq hfiles hf hsuffix, hblocked] at hfree
            cases hfree
      rw [hmissing]
      exact holds_refused hway hown hlater hflaw hblocked hbefore

omit hfiles hf in
/-- The next call after all directories. -/
theorem advances_making_nil {later : List PathStep} {again : Bool} (n : ℕ)
    (hway : later.reverse ++ [] = f.way dest) (hown : Untouched d₀ dest f d)
    (hlater : later ≠ [] → Descended d₀ dest f) :
    Advances d₀ dest files f d (next f dest n d (.making [] later again)) := by
  have hflaw : f.flawAbove? dest = none := by
    by_cases hlast : later = []
    · subst hlast
      exact if_pos hway.symm
    · exact (hlater hlast).flawless
  exact .of_holds hd (holds_onward hway hown hlater hflaw
    (Disk.requireDirectory_of_directory hd.sound.cwd_directory))

/-- What stands at the place of a file once the directories on the way are there. -/
theorem ahead?_of_reached (hway : d.Reached (f.way dest)) (hown : Untouched d₀ dest f d) :
    f.ahead? d₀ dest = d.entry? (f.place dest d₀.cwd) := by
  unfold OutputFile.ahead?
  split
  case isTrue hlane =>
      obtain ⟨l, hl, hspot⟩ := OutputFile.mem_lane_iff.1 hlane
      have hthere := hway.of_suffix hd.sound (OutputFile.tidy_way dest (hfiles.plain f hf)) hl
      rw [← hspot, ← hd.cwd_eq, hthere.directory]
  case isFalse hlane => exact (hown hlane).symm

/-- What becomes of a file once the directories on the way are there. -/
theorem fate_of_reached (hflaw : f.flawAbove? dest = none) (hway : d.Reached (f.way dest)) :
    f.fate d₀ dest = f.landing d₀ dest := by
  have htidy := OutputFile.tidy_way dest (hfiles.plain f hf)
  refine OutputFile.fate_of_free hflaw ?_
  rw [← hd.obstacle?_eq hfiles hf List.suffix_rfl, hway.obstacle?_eq hd.sound htidy]

/-- A file that is refused once the directories on the way are there. -/
theorem advances_refused {e : DiskFault} (hway : d.Reached (f.way dest))
    (hown : Untouched d₀ dest f d) (hfate : f.fate d₀ dest = .refused e) :
    Advances d₀ dest files f d (d, .finished (f.refusal dest e)) := by
  refine .of_holds hd (.finished (OutputFile.suits_refusal hfate fun _ => rfl)
    (fun _ => before_of_reached hfiles hf hd hway) (fun _ => hown) ?_)
  rw [hfate]
  exact nofun

/-- The next call where the file is opened. -/
theorem advances_opening (n : ℕ) (h : Holds d₀ dest f d .opening) :
    Advances d₀ dest files f d (next f dest n d .opening) := by
  cases h with | opening hflaw hway hown
  have hplain := hfiles.plain f hf
  have hfate := fate_of_reached hfiles hf hd hflaw hway
  have hahead := ahead?_of_reached hfiles hf hd hway hown
  cases hpath : (dest.join f.path).flaw? with
  | some e =>
      rw [OutputFile.landing_of_flaw hpath] at hfate
      have hfound : e ≠ .notFound := by
        rintro rfl
        exact FilePath.flaw?_ne_notFound (OutputFile.text_target_ne_empty dest hplain) hpath
      rw [next_opening_of_error (Disk.find_flawed d hpath) hfound]
      exact advances_refused hfiles hf hd hway hown hfate
  | none =>
      have hfind := OutputFile.find_target dest hplain hpath hway
      rw [hd.cwd_eq] at hfind
      cases hfits : (PathStep.name f.name).fits with
      | false =>
          rw [OutputFile.landing_of_tooLong hpath hfits] at hfate
          rw [hfits] at hfind
          rw [next_opening_of_error hfind nofun]
          exact advances_refused hfiles hf hd hway hown hfate
      | true =>
          rw [OutputFile.landing_of_fits hpath hfits, hahead] at hfate
          rw [hfits, if_pos rfl] at hfind
          have hlane (hfree : d.entry? (f.place dest d₀.cwd) ≠ some .directory) :
              f.place dest d₀.cwd ∉ f.lane dest d₀.cwd :=
            (OutputFile.ahead?_eq (by rwa [hahead])).1
          cases hentry : d.entry? (f.place dest d₀.cwd) with
          | none =>
              rw [hentry] at hfate hfind
              rw [next_opening, hfind]
              exact .of_holds hd (.creating hflaw hway hown (hlane (by rw [hentry]; nofun)) hentry
                hpath hfits hfate)
          | some entry =>
              cases entry with
              | directory =>
                  rw [hentry] at hfate hfind
                  rw [next_opening_of_error hfind nofun]
                  exact advances_refused hfiles hf hd hway hown hfate
              | file old =>
                  rw [hentry] at hfate hfind
                  dsimp only at hfate hfind
                  split at hfate
                  case isTrue hslash =>
                      rw [hslash, if_pos rfl] at hfind
                      rw [next_opening_of_error hfind nofun]
                      exact advances_refused hfiles hf hd hway hown hfate
                  case isFalse hslash =>
                      rw [if_neg hslash] at hfind
                      rw [next_opening, hfind]
                      exact .of_holds hd (.asking hflaw hway hown
                        (hlane (by rw [hentry]; nofun)) hentry hfate)

/-- The next call where the file may be replaced or not. -/
theorem advances_asking (n : ℕ) {q : Place} (h : Holds d₀ dest f d (.asking q)) :
    Advances d₀ dest files f d (next f dest n d (.asking q)) := by
  cases h with | @asking old hflaw hway hown hlane hentry hfate
  have hcontent : d.content (f.place dest d₀.cwd) = old := by
    rw [Disk.content, hentry]
  refine .of_holds hd ?_
  rw [hcontent]
  split
  case isTrue hmay =>
      rw [if_pos hmay] at hfate
      exact .emptying hway hfate hentry
  case isFalse hmay =>
      rw [if_neg hmay] at hfate
      refine .finished ?_ (fun _ => before_of_reached hfiles hf hd hway) (fun _ => hown) ?_
      · unfold OutputFile.Suits
        rw [hfate]
      · rw [hfate]
        exact nofun

/-- The next call where the file is made. -/
theorem advances_creating (n : ℕ) (h : Holds d₀ dest f d .creating) :
    Advances d₀ dest files f d (next f dest n d .creating) := by
  cases h with | creating hflaw hway hown hlane hentry hpath hfits hfate
  have hcreate := OutputFile.create_target dest (hfiles.plain f hf) hpath hway
    (by rw [hd.cwd_eq, hentry])
  rw [hd.cwd_eq, hfits, if_pos rfl] at hcreate
  split at hfate
  case isTrue hslash =>
      rw [if_pos hslash] at hcreate
      rw [next_creating, hcreate]
      exact advances_refused hfiles hf hd hway hown hfate
  case isFalse hslash =>
      rw [if_neg hslash] at hcreate
      rw [next_creating, hcreate]
      refine advances_put hfiles hf hd hway hfate (by rw [hentry]; nofun) fun d' hway' hentry' => ?_
      exact .filling hway' hfate hentry' rfl rfl

/-- The next call where the body is written. -/
theorem advances_filling (n : ℕ) {q : Place} {offset : ℕ} {left : List UInt8}
    (h : Holds d₀ dest f d (.filling q offset left)) :
    Advances d₀ dest files f d (next f dest n d (.filling q offset left)) := by
  cases h with | @filling content _ _ hway hfate hentry hbody hoffset
  cases left with
  | nil =>
      rw [List.append_nil] at hbody
      have hcontent : content = f.body := ByteArray.ext (Array.toList_inj.1 hbody)
      refine .of_holds hd (.finished ?_ (fun _ => before_of_reached hfiles hf hd hway)
        (fun hother => absurd hfate hother) (fun _ => hcontent ▸ hentry))
      unfold OutputFile.Suits
      rw [hfate]
  | cons b left =>
      -- what is written goes to the end of what is there
      have hsplice : spliced content.data.toList offset ((b :: left).take (n + 1)) =
          content.data.toList ++ (b :: left).take (n + 1) := by
        rw [hoffset]
        exact spliced_length _ _
      have hcontent : d.content (f.place dest d₀.cwd) = content := by
        rw [Disk.content, hentry]
      refine advances_put hfiles hf hd hway hfate (by rw [hentry]; nofun) fun d' hway' hentry' => ?_
      rw [hcontent, hsplice] at hentry'
      refine .filling hway' hfate hentry' ?_ ?_
      · rw [List.toList_toArray, List.append_assoc, List.take_append_drop, hbody]
      · rw [List.toList_toArray, List.length_append, hoffset]

/-- **The next call for a file keeps what is known of it**, and respects all files apart from it. -/
theorem Holds.advances {phase : Phase} (h : Holds d₀ dest f d phase) (n : ℕ) :
    Advances d₀ dest files f d (next f dest n d phase) := by
  cases phase with
  | making path later again =>
      cases h with | making hway hown hlater hagain
      cases path with
      | nil => exact advances_making_nil hd n hway hown hlater
      | cons c front => exact advances_making hfiles hf hd n hway hown hlater hagain
  | checking path later e => exact advances_checking hfiles hf hd n h
  | opening => exact advances_opening hfiles hf hd n h
  | asking q => exact advances_asking hfiles hf hd n h
  | creating => exact advances_creating hfiles hf hd n h
  | emptying q offset =>
      cases h with | emptying hway hfate hentry
      exact advances_put hfiles hf hd hway hfate (by rw [hentry]; nofun)
        fun d' hway' hentry' => .rewinding hway' hfate hentry'
  | rewinding q offset =>
      cases h with | rewinding hway hfate hentry
      exact .of_holds hd (.filling hway hfate hentry rfl rfl)
  | filling q offset left => exact advances_filling hfiles hf hd n h
  | finished outcome => exact .of_holds hd h

end Next

end Phase

end Groundwork
