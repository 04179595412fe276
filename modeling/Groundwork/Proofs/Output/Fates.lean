/-
What becomes of a file.

Whether a file is written, kept or refused can be told from the disk before anything happens, even
if many others are written at the same time: the directories that others make on the way would be
made anyway, and no other file goes where this one goes.

Main definitions:

* `Groundwork.OutputFile.way`, `Groundwork.OutputFile.place` — the directory that a file goes to,
  and the file itself;
* `Groundwork.OutputFile.Apart` — neither of two files is in the way of the other;
* `Groundwork.OutputFile.fate` — what becomes of a file, from the disk before anything happens;
* `Groundwork.OutputFile.Suits` — outcomes that agree with the fate of a file.

Main results:

* `Groundwork.OutputFile.place_mem_lane` — a file that is in the way of another one is in its own
  way;
* `Groundwork.OutputFile.place_ne` — two files apart go to different places;
* `Groundwork.OutputFile.of_fate_eq_filled` — what is known of a file that is written.
-/
import Groundwork.Output.Phase
import Groundwork.Proofs.Storage.Ways

set_option relaxedAutoImplicit false
set_option autoImplicit false

namespace Groundwork

open PathStep (Tidy)

namespace OutputFile

variable (dest : FilePath) (cwd : Place) (f g : OutputFile)

/-! ### Where files go -/

/-- The components of the directory that a file goes to, backwards. -/
def way : List PathStep := (dest.join f.path).components.reverse.tail

/-- The name under which a file is put. -/
def name : String := f.path.segments.getLast?.getD ""

/-- The place that a file goes to. -/
def place : Place := Disk.spot cwd (f.way dest) ++ [f.name]

/-- The places of the directories on the way to a file. -/
def lane : List Place := (f.way dest).tails.map (Disk.spot cwd)

/-- Neither of two files is in the way of the other. -/
def Apart : Prop :=
  ¬ f.path.segments <+: g.path.segments ∧ ¬ g.path.segments <+: f.path.segments

variable {dest cwd f g}

instance : Decidable (f.Apart g) := inferInstanceAs (Decidable (_ ∧ _))

theorem Apart.symm (h : f.Apart g) : g.Apart f := ⟨h.2, h.1⟩

theorem mem_lane_iff {q : Place} :
    q ∈ f.lane dest cwd ↔ ∃ l, l <:+ f.way dest ∧ Disk.spot cwd l = q := by
  rw [lane, List.mem_map]
  simp only [List.mem_tails]

theorem spot_mem_lane {l : List PathStep} (hl : l <:+ f.way dest) :
    Disk.spot cwd l ∈ f.lane dest cwd := mem_lane_iff.2 ⟨l, hl, rfl⟩

/-- Names lead down. -/
theorem spot_names (l : List String) (path : List PathStep) :
    Disk.spot cwd ((l.map PathStep.name).reverse ++ path) = Disk.spot cwd path ++ l := by
  induction l generalizing path with
  | nil => exact (List.append_nil _).symm
  | cons s l ih =>
      rw [List.map_cons, List.reverse_cons, List.append_assoc, List.singleton_append, ih,
        Disk.spot, List.append_assoc, List.singleton_append]

section Plain

variable (dest) (hf : f.path.Plain)
include hf

/-- The names of a plain path, with the last one apart. -/
theorem segments_eq : f.path.segments = f.path.segments.dropLast ++ [f.name] := by
  rw [name, List.getLast?_eq_some_getLast hf.ne_nil, Option.getD_some,
    List.dropLast_concat_getLast]

theorem name_mem : f.name ∈ f.path.segments := by
  rw [segments_eq hf]
  exact List.mem_append_right _ List.mem_cons_self

/-- The components of the path that a file goes to. -/
theorem components_target :
    (dest.join f.path).components.reverse = .name f.name :: f.way dest := by
  have hlast := segments_eq hf
  rw [way, hf.components_join, hlast, List.map_append, List.map_singleton, List.reverse_append]
  rfl

theorem way_eq : f.way dest =
    (f.path.segments.dropLast.map PathStep.name).reverse ++ dest.components.reverse := by
  have hlast := segments_eq hf
  rw [way, hf.components_join, hlast, List.map_append, List.map_singleton, List.reverse_append,
    List.dropLast_concat]
  rfl

theorem tidy_way : Tidy (f.way dest) := by
  have htarget := FilePath.tidy_components (dest.join f.path)
  rw [components_target dest hf] at htarget
  exact htarget.tail

theorem segments_target : (dest.join f.path).segments =
    dest.segments ++ f.path.segments.dropLast ++ [f.name] := by
  rw [hf.segments_join, segments_eq hf, List.dropLast_concat, List.append_assoc]

theorem text_target_ne_empty : (dest.join f.path).text ≠ "" := by
  intro h
  have hsegments := segments_target dest hf
  rw [FilePath.segments, h] at hsegments
  exact List.concat_ne_nil _ _ hsegments.symm

/-- A file goes to the place that its names lead to from the destination. -/
theorem place_eq : f.place dest cwd =
    Disk.spot cwd dest.components.reverse ++ f.path.segments := by
  rw [place, way_eq dest hf, spot_names, List.append_assoc, ← segments_eq hf]

/-- A file is found at its place where the way to it is there. -/
theorem find_target (hflaw : (dest.join f.path).flaw? = none) {d : Disk}
    (hway : d.Reached (f.way dest)) :
    d.find (dest.join f.path) =
      if (PathStep.name f.name).fits then
        match d.entry? (f.place dest d.cwd) with
        | some (.file content) =>
          if f.path.hasFinalSlash then .error .notDirectory
          else .ok (f.place dest d.cwd, content)
        | some .directory => .error .isDirectory
        | none => .error .notFound
      else .error .nameTooLong := by
  have hname := hf.names f.name (name_mem hf)
  have hfind := Disk.find_eq hflaw (segments_target dest hf) hname.1 hname.2 hway
  rw [hf.hasFinalSlash_join] at hfind
  exact hfind

/-- A file is made at its place where the way to it is there. -/
theorem create_target (hflaw : (dest.join f.path).flaw? = none) {d : Disk}
    (hway : d.Reached (f.way dest)) (hfree : d.entry? (f.place dest d.cwd) = none) :
    d.create (dest.join f.path) =
      if f.path.hasFinalSlash then .error .isDirectory
      else if (PathStep.name f.name).fits then
        .ok (f.place dest d.cwd, d.put (f.place dest d.cwd) (.file .empty))
      else .error .nameTooLong := by
  have hname := hf.names f.name (name_mem hf)
  have hcreate := Disk.create_eq hflaw (segments_target dest hf) hname.1 hname.2 hway hfree
  rw [hf.hasFinalSlash_join] at hcreate
  exact hcreate

/-- A directory on the way to a file is above the destination, or below it and above the file. -/
theorem suffix_way_cases {l : List PathStep} (hl : l <:+ f.way dest) :
    l <:+ dest.components.reverse ∨
      ∃ names, names <+: f.path.segments.dropLast ∧
        l = (names.map PathStep.name).reverse ++ dest.components.reverse := by
  rw [way_eq dest hf] at hl
  rcases List.suffix_or_suffix_of_suffix hl (List.suffix_append _ _) with h | ⟨m, rfl⟩
  · exact Or.inl h
  · obtain ⟨k, hk⟩ := hl
    rw [← List.append_assoc, List.append_left_inj] at hk
    have hnames := congrArg List.reverse hk.symm
    rw [List.reverse_reverse, List.reverse_append, List.map_eq_append_iff] at hnames
    obtain ⟨names, rest, hdirs, hm, -⟩ := hnames
    refine Or.inr ⟨names, ⟨rest, hdirs.symm⟩, ?_⟩
    rw [hm, List.reverse_reverse]

end Plain

/-- Two files apart go to different places. -/
theorem place_ne (hf : f.path.Plain) (hg : g.path.Plain) (h : f.Apart g) :
    f.place dest cwd ≠ g.place dest cwd := by
  rw [place_eq dest hf, place_eq dest hg, ne_eq, List.append_right_inj]
  intro heq
  exact h.1 (heq ▸ List.prefix_rfl)

/-- A file that is in the way of another one is above the destination, and so in its own way. -/
theorem place_mem_lane (hf : f.path.Plain) (hg : g.path.Plain) (h : f.Apart g)
    (hmem : f.place dest cwd ∈ g.lane dest cwd) : f.place dest cwd ∈ f.lane dest cwd := by
  obtain ⟨l, hl, hspot⟩ := mem_lane_iff.1 hmem
  rcases suffix_way_cases dest hg hl with habove | ⟨names, hnames, rfl⟩
  · rw [← hspot]
    refine spot_mem_lane (habove.trans ?_)
    rw [way_eq dest hf]
    exact List.suffix_append _ _
  · rw [spot_names, place_eq dest hf, List.append_right_inj] at hspot
    refine absurd ?_ h.1
    rw [← hspot]
    exact hnames.trans (List.dropLast_prefix _)

end OutputFile

/-! ### Fates -/

/-- What becomes of a file. -/
inductive Fate where
  /-- The disk refuses a call. -/
  | refused (reason : DiskFault)
  /-- The file that is there may not be replaced. -/
  | kept
  /-- The body is written. -/
  | filled

namespace OutputFile

variable (d : Disk) (dest : FilePath) (f : OutputFile)

/-- Why no call takes the path of the directory that the file goes to, if none does. -/
def flawAbove? : Option DiskFault :=
  if f.way dest = [] then none else (FilePath.ofComponents (f.way dest).reverse).flaw?

/-- What stands at the place of the file once the directories on the way are made. -/
def ahead? : Option DiskEntry :=
  if f.place dest d.cwd ∈ f.lane dest d.cwd then some .directory else d.entry? (f.place dest d.cwd)

/-- What becomes of a file once the directories on the way are made. -/
def landing : Fate :=
  match (dest.join f.path).flaw? with
  | some e => .refused e
  | none =>
    if !(PathStep.name f.name).fits then .refused .nameTooLong
    else match f.ahead? d dest with
      | some .directory => .refused .isDirectory
      | some (.file old) =>
        if f.path.hasFinalSlash then .refused .notDirectory
        else if f.mayReplace old then .filled else .kept
      | none => if f.path.hasFinalSlash then .refused .isDirectory else .filled

/-- What becomes of a file. -/
def fate : Fate :=
  match f.flawAbove? dest with
  | some e => .refused e
  | none =>
    match d.obstacle? (f.way dest) with
    | some e => .refused e
    | none => f.landing d dest

/-- Outcomes that agree with the fate of a file.  If a file blocks the way behind something that is
missing, it depends on the order of the calls why the disk refuses one. -/
def Suits (outcome : Except Fault Unit) : Prop :=
  match f.fate d dest with
  | .refused e => ∃ e', outcome = f.refusal dest e' ∧ (d.Straight (f.way dest) → e' = e)
  | .kept => outcome = .ok ()
  | .filled => outcome = f.conclusion dest

variable {d dest f}

theorem fate_of_flawAbove {e : DiskFault} (h : f.flawAbove? dest = some e) :
    f.fate d dest = .refused e := by
  unfold fate
  rw [h]

theorem fate_of_obstacle {e : DiskFault} (hflaw : f.flawAbove? dest = none)
    (h : d.obstacle? (f.way dest) = some e) : f.fate d dest = .refused e := by
  unfold fate
  rw [hflaw, h]

theorem fate_of_free (hflaw : f.flawAbove? dest = none)
    (h : d.obstacle? (f.way dest) = none) : f.fate d dest = f.landing d dest := by
  unfold fate
  rw [hflaw, h]

/-- A file whose path no call takes is refused. -/
theorem landing_of_flaw {e : DiskFault} (h : (dest.join f.path).flaw? = some e) :
    f.landing d dest = .refused e := by
  unfold landing
  rw [h]

theorem landing_of_tooLong (hflaw : (dest.join f.path).flaw? = none)
    (h : (PathStep.name f.name).fits = false) : f.landing d dest = .refused .nameTooLong := by
  unfold landing
  rw [hflaw, h]
  rfl

theorem landing_of_fits (hflaw : (dest.join f.path).flaw? = none)
    (h : (PathStep.name f.name).fits = true) : f.landing d dest =
      match f.ahead? d dest with
      | some .directory => .refused .isDirectory
      | some (.file old) =>
        if f.path.hasFinalSlash then .refused .notDirectory
        else if f.mayReplace old then .filled else .kept
      | none => if f.path.hasFinalSlash then .refused .isDirectory else .filled := by
  unfold landing
  rw [hflaw, h]
  rfl

/-- A file that is not refused is not in its own way, and no directory stands where it goes. -/
theorem ahead?_eq (h : f.ahead? d dest ≠ some .directory) :
    f.place dest d.cwd ∉ f.lane dest d.cwd ∧ f.ahead? d dest = d.entry? (f.place dest d.cwd) := by
  unfold ahead? at h ⊢
  split at h
  case isTrue => exact absurd rfl h
  case isFalse hlane => exact ⟨hlane, if_neg hlane⟩

/-- What is known of a file that is not refused. -/
structure Allowed (d : Disk) (dest : FilePath) (f : OutputFile) : Prop where
  above : f.flawAbove? dest = none
  free : d.obstacle? (f.way dest) = none
  flawless : (dest.join f.path).flaw? = none
  fits : (PathStep.name f.name).fits = true
  noSlash : f.path.hasFinalSlash = false

theorem allowed_of_fate (h : ∀ e, f.fate d dest ≠ .refused e) : f.Allowed d dest := by
  cases habove : f.flawAbove? dest with
  | some e => exact absurd (fate_of_flawAbove habove) (h e)
  | none =>
      cases hfree : d.obstacle? (f.way dest) with
      | some e => exact absurd (fate_of_obstacle habove hfree) (h e)
      | none =>
          have hlanding := fate_of_free habove hfree
          cases hflaw : (dest.join f.path).flaw? with
          | some e => exact absurd (hlanding.trans (landing_of_flaw hflaw)) (h e)
          | none =>
              cases hfits : (PathStep.name f.name).fits with
              | false => exact absurd (hlanding.trans (landing_of_tooLong hflaw hfits)) (h _)
              | true =>
                  refine ⟨habove, hfree, hflaw, hfits, Bool.eq_false_iff.2 fun hslash => ?_⟩
                  rw [landing_of_fits hflaw hfits] at hlanding
                  simp only [hslash, if_true] at hlanding
                  split at hlanding
                  all_goals exact h _ hlanding

theorem Allowed.fate_eq (h : f.Allowed d dest) : f.fate d dest =
    match f.ahead? d dest with
    | some .directory => .refused .isDirectory
    | some (.file old) => if f.mayReplace old then .filled else .kept
    | none => .filled := by
  rw [fate_of_free h.above h.free, landing_of_fits h.flawless h.fits]
  simp only [h.noSlash, Bool.false_eq_true, if_false]

theorem flawAbove?_eq (h : f.way dest ≠ []) :
    f.flawAbove? dest = (FilePath.ofComponents (f.way dest).reverse).flaw? := if_neg h

/-- What is known of a file that is written. -/
theorem of_fate_eq_filled (h : f.fate d dest = .filled) :
    f.place dest d.cwd ∉ f.lane dest d.cwd ∧ d.entry? (f.place dest d.cwd) ≠ some .directory ∧
      ∀ old, d.entry? (f.place dest d.cwd) = some (.file old) → f.mayReplace old = true := by
  have hallowed : f.Allowed d dest := allowed_of_fate (by simp [h])
  have hcases := hallowed.fate_eq
  rw [h] at hcases
  have hahead : f.ahead? d dest ≠ some .directory := by
    intro hdirectory
    rw [hdirectory] at hcases
    cases hcases
  obtain ⟨hlane, hentry⟩ := ahead?_eq hahead
  rw [hentry] at hahead hcases
  refine ⟨hlane, hahead, fun old hold => ?_⟩
  rw [hold] at hcases
  dsimp only at hcases
  split at hcases
  case isTrue hmay => exact hmay
  case isFalse => cases hcases

theorem suits_refusal {e e' : DiskFault} (h : f.fate d dest = .refused e)
    (he : d.Straight (f.way dest) → e' = e) : f.Suits d dest (f.refusal dest e') := by
  unfold Suits
  rw [h]
  exact ⟨e', rfl, he⟩

/-- A file fails for a single reason. -/
theorem Suits.parts_eq {outcome : Except Fault Unit} (h : f.Suits d dest outcome) {e : Fault}
    (he : outcome = .error e) : e.parts = [e] := by
  unfold Suits at h
  split at h
  case h_1 =>
      obtain ⟨e', rfl, -⟩ := h
      cases he
      rfl
  case h_2 =>
      rw [h] at he
      cases he
  case h_3 =>
      rw [h, conclusion] at he
      split at he
      · cases he
      · cases he
        rfl

end OutputFile

end Groundwork
