/-
Texts and components of paths.

A path is kept as a text, but followed one component at a time.  Going up from a file to the
directories above it, components are taken away at the end and the rest is written out as a text
again, which is then read once more.  Nothing is lost on the way: the components of such a text are
those that it was made from.

Components are listed backwards here, as in the making of directories: the last one comes first, and
the directories above a directory are the tails of its list.

Main definitions:

* `Groundwork.IsName` — texts that may be the name of something in a directory;
* `Groundwork.PathStep.Tidy` — lists of components that paths have;
* `Groundwork.FilePath.Plain` — paths that lead down from a directory, by names only;
* `Groundwork.FilePath.flaw?` — why no call to the system takes a path.

Main results:

* `Groundwork.FilePath.tidy_components` — the components of every path are tidy;
* `Groundwork.FilePath.components_ofComponents` — components are read back as they were;
* `Groundwork.FilePath.components_join` — a plain path taken from a directory adds its names;
* `Groundwork.FilePath.flaw?_front` — a path that is taken is taken up to each of its components.
-/
import Groundwork.Storage.Disk
import Mathlib.Data.List.Basic
import Mathlib.Data.List.Infix

set_option relaxedAutoImplicit false
set_option autoImplicit false

namespace Groundwork

/-! ### Names -/

/-- The parts of a list between two separators hold no separator. -/
theorem notMem_of_mem_splitOn {α : Type} [BEq α] [LawfulBEq α] {a : α} {l m : List α}
    (h : m ∈ l.splitOn a) : a ∉ m := by
  induction l generalizing m with
  | nil =>
      rw [List.splitOn_nil, List.mem_singleton] at h
      rw [h]
      exact List.not_mem_nil
  | cons b l ih =>
      rw [List.splitOn_cons_eq_if_modifyHead] at h
      split at h
      case isTrue =>
          rcases List.mem_cons.1 h with rfl | h
          · exact List.not_mem_nil
          · exact ih h
      case isFalse hb =>
          obtain ⟨first, rest, hsplit⟩ := List.exists_cons_of_ne_nil (List.splitOn_ne_nil a l)
          rw [hsplit] at h ih
          rcases List.mem_cons.1 h with rfl | h
          · rw [List.mem_cons, not_or]
            exact ⟨fun hab => hb (by rw [hab, beq_self_eq_true]), ih List.mem_cons_self⟩
          · exact ih (List.mem_cons_of_mem _ h)

/-- Texts that may be the name of something in a directory. -/
structure IsName (s : String) : Prop where
  ne_empty : s ≠ ""
  slash_notMem : '/' ∉ s.toList
  ne_here : s ≠ "."
  ne_up : s ≠ ".."

namespace PathStep

/-- Lists of components that paths have, backwards: names are names, and the path may start at the
root or where it is taken from, but does not go there later. -/
def Tidy : List PathStep → Prop
  | [] => True
  | .root :: front => front = []
  | .here :: front => front = []
  | .up :: front => Tidy front
  | .name s :: front => IsName s ∧ Tidy front

/-- The text between two slashes that stands for a component. -/
def segment? : PathStep → Option String
  | .root => none
  | c => some c.text

theorem Tidy.tail {c : PathStep} {front : List PathStep} (h : Tidy (c :: front)) : Tidy front := by
  cases c with
  | root =>
      obtain rfl : front = [] := h
      trivial
  | here =>
      obtain rfl : front = [] := h
      trivial
  | up => exact h
  | name s => exact h.2

theorem Tidy.of_suffix {l m : List PathStep} (h : Tidy m) (hl : l <:+ m) : Tidy l := by
  induction m with
  | nil =>
      rw [List.suffix_nil.1 hl]
      trivial
  | cons c m ih =>
      rcases List.suffix_cons_iff.1 hl with rfl | hl
      · exact h
      · exact ih h.tail hl

theorem Tidy.text_ne_empty {c : PathStep} {front : List PathStep} (h : Tidy (c :: front))
    (hc : c ≠ .root) : c.text ≠ "" := by
  cases c with
  | root => exact absurd rfl hc
  | here => decide
  | up => decide
  | name s => exact h.1.ne_empty

/-- Only the first component may stand for the root. -/
theorem Tidy.ne_root {c : PathStep} {front : List PathStep} (h : Tidy (c :: front))
    (hfront : front ≠ []) : c ≠ .root := by
  rintro rfl
  exact hfront h

end PathStep

namespace FilePath

open PathStep (Tidy)

/-! ### Segments -/

theorem isName_of_mem_segments {p : FilePath} {s : String} (h : s ∈ p.segments) :
    s ≠ "" ∧ '/' ∉ s.toList := by
  rw [segments, List.mem_map] at h
  obtain ⟨l, hl, rfl⟩ := h
  obtain ⟨hl, hne⟩ := List.mem_filter.1 hl
  constructor
  · rintro hempty
    rw [← String.toList_eq_nil_iff, String.toList_ofList] at hempty
    rw [hempty] at hne
    cases hne
  · rw [String.toList_ofList]
    exact notMem_of_mem_splitOn hl

/-- The segments of a text are those before a slash and those behind it. -/
theorem segments_slash (s t : String) :
    segments ⟨s ++ "/" ++ t⟩ = segments ⟨s⟩ ++ segments ⟨t⟩ := by
  have htext : (s ++ "/" ++ t).toList = s.toList ++ '/' :: t.toList := by
    rw [String.toList_append, String.toList_append, List.append_assoc]
    rfl
  rw [segments, segments, segments, htext, List.splitOn_append_cons_self, List.filter_append,
    List.map_append]

/-- A text without slashes is a single segment. -/
theorem segments_text {s : String} (hs : '/' ∉ s.toList) (hne : s ≠ "") :
    segments ⟨s⟩ = [s] := by
  have hkept : (!s.toList.isEmpty) = true := by
    rw [Bool.not_eq_true', List.isEmpty_eq_false_iff, ne_eq, String.toList_eq_nil_iff]
    exact hne
  rw [segments, List.splitOn_eq_singleton hs, List.filter_singleton, hkept, cond_true,
    List.map_singleton, String.ofList_toList]

theorem stepOf_eq_some_name {s t : String} (h : stepOf s = some (.name t)) :
    s = t ∧ s ≠ "." ∧ s ≠ ".." := by
  unfold stepOf at h
  split at h
  case isTrue => cases h
  case isFalse hhere =>
      split at h
      case isTrue => cases h
      case isFalse hup =>
          cases h
          exact ⟨rfl, hhere, hup⟩

/-- No segment stands for the root or for where a path is taken from. -/
theorem stepOf_ne (s : String) : stepOf s ≠ some .root ∧ stepOf s ≠ some .here := by
  unfold stepOf
  split
  · exact ⟨nofun, nofun⟩
  · split
    · exact ⟨nofun, nofun⟩
    · exact ⟨nofun, nofun⟩

theorem stepOf_of_isName {s : String} (hhere : s ≠ ".") (hup : s ≠ "..") :
    stepOf s = some (.name s) := by
  rw [stepOf, if_neg hhere, if_neg hup]

/-- The components of a path, backwards, from its segments. -/
theorem reverse_components (p : FilePath) :
    p.components.reverse = (p.segments.filterMap stepOf).reverse ++
      if p.isAbsolute then [.root] else if p.segments.head? = some "." then [.here] else [] := by
  unfold components
  split
  · exact List.reverse_cons
  · split
    · exact List.reverse_cons
    · exact (List.append_nil _).symm

/-- The components of every path are tidy. -/
theorem tidy_components (p : FilePath) : Tidy p.components.reverse := by
  have hbase : Tidy (if p.isAbsolute then [.root]
      else if p.segments.head? = some "." then [.here] else []) := by
    split
    · rfl
    · split
      · rfl
      · trivial
  have hsteps (l : List String) (hl : ∀ s ∈ l, s ≠ "" ∧ '/' ∉ s.toList) {base : List PathStep}
      (hbase : Tidy base) : Tidy ((l.filterMap stepOf).reverse ++ base) := by
    induction l generalizing base with
    | nil => exact hbase
    | cons s l ih =>
        have hrest := fun t ht => hl t (List.mem_cons_of_mem s ht)
        cases hstep : stepOf s with
        | none =>
            rw [List.filterMap_cons_none hstep]
            exact ih hrest hbase
        | some c =>
            rw [List.filterMap_cons_some hstep, List.reverse_cons, List.append_assoc]
            refine ih hrest ?_
            cases c with
            | root => exact absurd hstep (stepOf_ne s).1
            | here => exact absurd hstep (stepOf_ne s).2
            | up => exact hbase
            | name t =>
                obtain ⟨rfl, hhere, hup⟩ := stepOf_eq_some_name hstep
                obtain ⟨hne, hslash⟩ := hl s List.mem_cons_self
                exact ⟨⟨hne, hslash, hhere, hup⟩, hbase⟩
  rw [reverse_components]
  exact hsteps p.segments (fun s hs => isName_of_mem_segments hs) hbase

/-! ### Components and back -/

section Components

variable {c : PathStep} {front path : List PathStep}

/-- What is written for a path, from what is written for the path above it. -/
theorem text_ofComponents_cons (c : PathStep) (hfront : front ≠ []) :
    (ofComponents (c :: front).reverse).text =
      (if front = [.root] then "" else (ofComponents front.reverse).text) ++ "/" ++ c.text := by
  have hlong : ∀ l : List PathStep, l ≠ [.root] →
      (ofComponents l).text = "/".intercalate (l.map PathStep.text) := by
    intro l hl
    unfold ofComponents
    split
    · exact absurd rfl hl
    · rfl
  have hne : (c :: front).reverse ≠ [.root] := by
    intro h
    have hlength := congrArg List.length h
    rw [List.length_reverse, List.length_cons, List.length_singleton] at hlength
    exact hfront (List.length_eq_zero_iff.1 (by omega))
  have hmap : front.reverse.map PathStep.text ≠ [] := by
    rw [ne_eq, List.map_eq_nil_iff, List.reverse_eq_nil_iff]
    exact hfront
  rw [hlong _ hne, List.reverse_cons, List.map_append, List.map_singleton,
    String.intercalate_append_of_ne_nil hmap (List.cons_ne_nil _ _), String.intercalate_singleton]
  split
  case isTrue hroot =>
      subst hroot
      rfl
  case isFalse hroot =>
      rw [hlong]
      exact fun h => hroot (List.reverse_inj.1 (h.trans List.reverse_singleton.symm))

/-- What is written for a single component. -/
theorem text_ofComponents_singleton (c : PathStep) :
    (ofComponents [c]).text = if c = .root then "/" else c.text := by
  cases c <;> rfl

theorem text_ofComponents_ne_empty (h : Tidy (c :: front)) :
    (ofComponents (c :: front).reverse).text ≠ "" := by
  by_cases hfront : front = []
  · subst hfront
    rw [List.reverse_singleton, text_ofComponents_singleton]
    split
    · decide
    case isFalse hc => exact h.text_ne_empty hc
  · rw [text_ofComponents_cons c hfront]
    intro hempty
    rw [String.append_eq_empty_iff] at hempty
    exact h.text_ne_empty (h.ne_root hfront) hempty.2

/-- A component is written as its segment. -/
theorem segments_step (h : Tidy (c :: front)) : segments ⟨c.text⟩ = c.segment?.toList := by
  cases c with
  | root => rfl
  | here => decide
  | up => decide
  | name s => exact segments_text h.1.slash_notMem h.1.ne_empty

/-- The segments of what is written for components. -/
theorem segments_ofComponents (h : Tidy path) :
    (ofComponents path.reverse).segments = path.reverse.filterMap PathStep.segment? := by
  induction path with
  | nil => rfl
  | cons c front ih =>
      have hlast : [c].filterMap PathStep.segment? = c.segment?.toList := by
        cases c <;> rfl
      rw [List.reverse_cons, List.filterMap_append, hlast, ← List.reverse_cons]
      by_cases hfront : front = []
      · subst hfront
        cases c with
        | root => decide
        | here => exact segments_step h
        | up => exact segments_step h
        | name s => exact segments_step h
      · have hbefore :
            segments ⟨if front = [.root] then "" else (ofComponents front.reverse).text⟩ =
              front.reverse.filterMap PathStep.segment? := by
          split
          case isTrue hroot =>
              subst hroot
              rfl
          case isFalse => exact ih h.tail
        have htext : ofComponents (c :: front).reverse = ⟨_⟩ :=
          congrArg FilePath.mk (text_ofComponents_cons c hfront)
        rw [htext, segments_slash, hbefore, segments_step h]

/-- What is written starts at the root if its first component says so. -/
theorem isAbsolute_ofComponents (h : Tidy path) :
    (ofComponents path.reverse).isAbsolute = decide (path.getLast? = some .root) := by
  induction path with
  | nil => rfl
  | cons c front ih =>
      by_cases hfront : front = []
      · subst hfront
        cases c with
        | root => rfl
        | here => rfl
        | up => rfl
        | name s =>
            have hhead : s.toList.head? ≠ some '/' := fun hs =>
              h.1.slash_notMem (List.mem_of_mem_head? hs)
            have hlast : [PathStep.name s].getLast? ≠ some .root := by
              rw [List.getLast?_singleton]
              exact nofun
            rw [decide_eq_false hlast]
            exact beq_eq_false_iff_ne.2 hhead
      · obtain ⟨c', front', rfl⟩ := List.exists_cons_of_ne_nil hfront
        rw [List.getLast?_cons_cons, ← ih h.tail, isAbsolute, text_ofComponents_cons c hfront]
        split
        case isTrue hroot =>
            rw [hroot, String.toList_append, String.toList_append]
            rfl
        case isFalse =>
            have hne : (ofComponents (c' :: front').reverse).text.toList ≠ [] := by
              rw [ne_eq, String.toList_eq_nil_iff]
              exact text_ofComponents_ne_empty h.tail
            rw [isAbsolute, String.toList_append, String.toList_append, List.append_assoc,
              List.head?_append_of_ne_nil _ hne]

/-- A path with more segments than another has more components. -/
theorem components_of_segments {p q : FilePath} {l : List String}
    (hsegments : q.segments = p.segments ++ l) (habsolute : q.isAbsolute = p.isAbsolute)
    (hl : "." ∉ l) :
    q.components.reverse = (l.filterMap stepOf).reverse ++ p.components.reverse := by
  have hhead : q.segments.head? = some "." ↔ p.segments.head? = some "." := by
    rw [hsegments]
    cases hp : p.segments with
    | nil =>
        rw [List.nil_append]
        exact ⟨fun h => absurd (List.mem_of_mem_head? h) hl, nofun⟩
    | cons s rest => exact Iff.rfl
  rw [reverse_components, reverse_components, habsolute, hsegments, List.filterMap_append,
    List.reverse_append, List.append_assoc, ← hsegments]
  simp only [hhead]

/-- Components are read back as they were. -/
theorem components_ofComponents (h : Tidy path) :
    (ofComponents path.reverse).components.reverse = path := by
  induction path with
  | nil => decide
  | cons c front ih =>
      by_cases hfront : front = []
      · subst hfront
        cases c with
        | root => decide
        | here => decide
        | up => decide
        | name s =>
            rw [reverse_components, segments_ofComponents h, isAbsolute_ofComponents h]
            have hhead : s ≠ "." := h.1.ne_here
            simp [PathStep.segment?, PathStep.text, stepOf_of_isName h.1.ne_here h.1.ne_up, hhead]
      · have hsegments : (ofComponents (c :: front).reverse).segments =
            (ofComponents front.reverse).segments ++ c.segment?.toList := by
          rw [segments_ofComponents h, segments_ofComponents h.tail, List.reverse_cons,
            List.filterMap_append]
          cases c <;> rfl
        have habsolute : (ofComponents (c :: front).reverse).isAbsolute =
            (ofComponents front.reverse).isAbsolute := by
          obtain ⟨c', front', rfl⟩ := List.exists_cons_of_ne_nil hfront
          rw [isAbsolute_ofComponents h, isAbsolute_ofComponents h.tail, List.getLast?_cons_cons]
        have hstep : "." ∉ c.segment?.toList ∧ c.segment?.toList.filterMap stepOf = [c] := by
          cases c with
          | root => exact absurd h hfront
          | here => exact absurd h hfront
          | up => decide
          | name s =>
              have hname : stepOf s = some (.name s) := stepOf_of_isName h.1.ne_here h.1.ne_up
              exact ⟨fun hs => h.1.ne_here (List.mem_singleton.1 hs).symm,
                List.filterMap_cons_some hname⟩
        rw [components_of_segments hsegments habsolute hstep.1, hstep.2, ih h.tail]
        rfl

end Components

/-! ### Plain paths -/

/-- Paths that lead down from a directory, by names only. -/
structure Plain (p : FilePath) : Prop where
  relative : p.isAbsolute = false
  ne_nil : p.segments ≠ []
  names : ∀ s ∈ p.segments, s ≠ "." ∧ s ≠ ".."

namespace Plain

variable {dir p : FilePath}

theorem text_ne_empty (hp : p.Plain) : p.text ≠ "" := by
  intro h
  refine hp.ne_nil ?_
  rw [segments, h]
  rfl

/-- What is written for a plain path taken from a directory. -/
theorem join_eq (hp : p.Plain) : dir.join p =
    if dir.text.isEmpty || dir.hasFinalSlash then ⟨dir.text ++ p.text⟩
    else ⟨dir.text ++ "/" ++ p.text⟩ := by
  rw [join, hp.relative]
  rfl

theorem segments_join (hp : p.Plain) : (dir.join p).segments = dir.segments ++ p.segments := by
  rw [hp.join_eq]
  split
  case isFalse => exact segments_slash dir.text p.text
  case isTrue h =>
      rw [Bool.or_eq_true] at h
      rcases h with h | h
      · obtain rfl : dir = ⟨""⟩ := congrArg FilePath.mk (String.isEmpty_iff.1 h)
        rw [String.empty_append]
        rfl
      · -- the slash at the end of the directory parts the two
        obtain ⟨l, hl⟩ := List.getLast?_eq_some_iff.1 (beq_iff_eq.1 h)
        have hdir : dir.text = String.ofList l ++ "/" ++ "" := by
          rw [← String.toList_inj, hl]
          simp
        have hbefore : dir.segments = segments ⟨String.ofList l⟩ := by
          rw [show dir = ⟨_⟩ from congrArg FilePath.mk hdir, segments_slash]
          exact List.append_nil _
        rw [hbefore, hdir, String.append_empty, segments_slash]

theorem isAbsolute_join (hp : p.Plain) : (dir.join p).isAbsolute = dir.isAbsolute := by
  rw [hp.join_eq]
  by_cases hdir : dir.text = ""
  · obtain rfl : dir = ⟨""⟩ := congrArg FilePath.mk hdir
    exact hp.relative
  · have hne : dir.text.toList ≠ [] := by
      rw [ne_eq, String.toList_eq_nil_iff]
      exact hdir
    split
    · rw [isAbsolute, isAbsolute, String.toList_append, List.head?_append_of_ne_nil _ hne]
    · rw [isAbsolute, isAbsolute, String.toList_append, String.toList_append, List.append_assoc,
        List.head?_append_of_ne_nil _ hne]

theorem hasFinalSlash_join (hp : p.Plain) : (dir.join p).hasFinalSlash = p.hasFinalSlash := by
  have hne : p.text.toList ≠ [] := by
    rw [ne_eq, String.toList_eq_nil_iff]
    exact hp.text_ne_empty
  rw [hp.join_eq]
  split
  · rw [hasFinalSlash, hasFinalSlash, String.toList_append, List.getLast?_append_of_ne_nil _ hne]
  · rw [hasFinalSlash, hasFinalSlash, String.toList_append, List.getLast?_append_of_ne_nil _ hne]

/-- A plain path taken from a directory adds its names. -/
theorem components_join (hp : p.Plain) : (dir.join p).components.reverse =
    (p.segments.map PathStep.name).reverse ++ dir.components.reverse := by
  have hnames : p.segments.filterMap stepOf = p.segments.map PathStep.name := by
    rw [← List.filterMap_eq_map]
    refine List.filterMap_congr fun s hs => ?_
    exact stepOf_of_isName (hp.names s hs).1 (hp.names s hs).2
  rw [← hnames]
  exact components_of_segments hp.segments_join hp.isAbsolute_join
    fun h => (hp.names "." h).1 rfl

end Plain

/-! ### Paths that are not taken -/

/-- Why no call to the system takes a path, if none does. -/
def flaw? (p : FilePath) : Option DiskFault :=
  if p.text.contains '\x00' then some .badName
  else if p.text.isEmpty then some .notFound
  else if p.text.utf8ByteSize > 4095 then some .nameTooLong
  else none

theorem flaw?_eq_none_iff {p : FilePath} : p.flaw? = none ↔
    '\x00' ∉ p.text.toList ∧ p.text ≠ "" ∧ p.text.utf8ByteSize ≤ 4095 := by
  unfold flaw?
  rw [String.contains_char_eq]
  split
  case isTrue h => simp_all
  case isFalse h =>
      split
      case isTrue h' => simp_all
      case isFalse h' =>
          split
          case isTrue => simp_all
          case isFalse => simp_all

/-- A path that is taken is taken up to each of its components. -/
theorem flaw?_front {c : PathStep} {front : List PathStep} (h : Tidy (c :: front))
    (hfront : front ≠ []) (hflaw : (ofComponents (c :: front).reverse).flaw? = none) :
    (ofComponents front.reverse).flaw? = none := by
  by_cases hroot : front = [.root]
  · subst hroot
    exact flaw?_eq_none_iff.2 (by decide)
  · rw [flaw?_eq_none_iff, text_ofComponents_cons c hfront, if_neg hroot] at hflaw
    obtain ⟨hchars, -, hsize⟩ := hflaw
    obtain ⟨c', front', rfl⟩ := List.exists_cons_of_ne_nil hfront
    refine flaw?_eq_none_iff.2 ⟨fun hmem => hchars ?_, text_ofComponents_ne_empty h.tail, ?_⟩
    · rw [String.toList_append, String.toList_append]
      exact List.mem_append_left _ (List.mem_append_left _ hmem)
    · rw [String.utf8ByteSize_append, String.utf8ByteSize_append] at hsize
      omega

theorem flaw?_of_suffix {l path : List PathStep} (h : Tidy path) (hl : l <:+ path) (hne : l ≠ [])
    (hflaw : (ofComponents path.reverse).flaw? = none) :
    (ofComponents l.reverse).flaw? = none := by
  induction path with
  | nil => exact absurd (List.suffix_nil.1 hl) hne
  | cons c front ih =>
      rcases List.suffix_cons_iff.1 hl with rfl | hfront
      · exact hflaw
      · refine ih h.tail hfront (flaw?_front h ?_ hflaw)
        rintro rfl
        exact hne (List.suffix_nil.1 hfront)

/-- Only the empty path is refused as if there were nothing. -/
theorem flaw?_ne_notFound {p : FilePath} (hp : p.text ≠ "") : p.flaw? ≠ some .notFound := by
  unfold flaw?
  split
  · exact nofun
  · split
    case isTrue h => exact absurd (String.isEmpty_iff.1 h) hp
    case isFalse => split <;> exact nofun

end FilePath

end Groundwork
