/-
What the DOT text of a knowledge base tells.

A drawing has a line for each entry, with its two types between quotes.  The types are written as
they are, so a quote in a type looks like the end of it, and what follows it may look like the rest
of a line and like further lines.  Between knowledge bases without such types the drawing tells
every link, and which behaviours its entry has.  Among all knowledge bases it tells almost nothing.

Main definitions:

* `Groundwork.Mark`, `Groundwork.KnowledgeBase.marks` — a link and which behaviours it has, and all
  those of a knowledge base;
* `Groundwork.Link.Unquoted` — there is no quote in a link;
* `Groundwork.Link.Legible` — nothing in a link looks like what stands between two types;
* `Groundwork.KnowledgeBase.Told` — no knowledge base with other links has the same drawing.

Main results:

* `Groundwork.Link.legible_iff` — a link is legible if and only if it is cut in one way only;
* `Groundwork.Mark.eq_of_flatMap_line` — lines without quotes in their types are read back;
* `Groundwork.Mark.line_swallow` — any lines are also the line of one mark;
* `Groundwork.KnowledgeBase.drawing_eq_iff` — drawings are compared line by line;
* `Groundwork.KnowledgeBase.drawing_tells_iff` — **which drawings tell their knowledge base**.
-/
import Groundwork.Knowledge.Base
import Mathlib.Data.List.Basic
import Mathlib.Data.List.Infix

set_option relaxedAutoImplicit false
set_option autoImplicit false

namespace Groundwork

/-! ### Cuts -/

/-- A text is cut in one way only at a character that does not come before. -/
theorem Text.eq_of_append_cons_eq {c : Char} {a b r s : List Char} (ha : c ∉ a) (hb : c ∉ b)
    (h : a ++ c :: r = b ++ c :: s) : a = b ∧ r = s := by
  rcases List.append_eq_append_iff.1 h with ⟨z, rfl, hz⟩ | ⟨z, rfl, hz⟩
  · cases z with
    | nil => exact ⟨(List.append_nil a).symm, (List.cons.inj hz).2⟩
    | cons d z =>
        obtain ⟨rfl, -⟩ := List.cons.inj hz
        exact absurd (List.mem_append_right a List.mem_cons_self) hb
  · cases z with
    | nil => exact ⟨List.append_nil b, (List.cons.inj hz).2.symm⟩
    | cons d z =>
        obtain ⟨rfl, -⟩ := List.cons.inj hz
        exact absurd (List.mem_append_right b List.mem_cons_self) ha

namespace Link

theorem eq_of_toList_eq {l l' : Link} (hsource : l.source.text.toList = l'.source.text.toList)
    (htarget : l.target.text.toList = l'.target.text.toList) : l = l' :=
  ext_texts (by rw [texts, texts, String.toList_inj.1 hsource, String.toList_inj.1 htarget])

/-- What stands between the types of a link. -/
def arrow : List Char := ['"', ' ', '-', '>', ' ', '"']

/-- The types of a link with what stands between them. -/
def joined (l : Link) : List Char := l.source.text.toList ++ (arrow ++ l.target.text.toList)

/-- There is no quote in the types. -/
def Unquoted (l : Link) : Prop := '"' ∉ l.source.text.toList ∧ '"' ∉ l.target.text.toList

instance (l : Link) : Decidable l.Unquoted := inferInstanceAs (Decidable (_ ∧ _))

/-- Nothing looks like what stands between the types, not even together with a quote that encloses
them. -/
def Legible (l : Link) : Prop :=
  ¬ arrow <:+: l.source.text.toList ++ ['"'] ∧ ¬ arrow <:+: '"' :: l.target.text.toList

instance (l : Link) : Decidable l.Legible := inferInstanceAs (Decidable (_ ∧ _))

/-- Two arrows share a quote at most. -/
theorem eq_nil_or_of_arrow_append {z a b : List Char} (h : arrow ++ a = z ++ (arrow ++ b)) :
    z = [] ∨ ∃ w, z = ['"', ' ', '-', '>', ' '] ++ w ∧ '"' :: a = w ++ (arrow ++ b) := by
  match z with
  | [] => exact .inl rfl
  | [_] | [_, _] | [_, _, _] | [_, _, _, _] => simp [arrow] at h
  | _ :: _ :: _ :: _ :: _ :: w =>
      simp only [arrow, List.cons_append, List.nil_append, List.cons.injEq] at h
      obtain ⟨rfl, rfl, rfl, rfl, rfl, h⟩ := h
      exact .inr ⟨w, rfl, h⟩

/-- A legible link is cut in one way only. -/
theorem Legible.eq_of_append {l : Link} (h : l.Legible) {a b : List Char}
    (hcut : a ++ (arrow ++ b) = l.joined) : a = l.source.text.toList := by
  rcases List.append_eq_append_iff.1 hcut with ⟨z, hz, hrest⟩ | ⟨z, rfl, hrest⟩
  · rcases eq_nil_or_of_arrow_append hrest with rfl | ⟨w, rfl, hw⟩
    · rw [hz, List.append_nil]
    · -- the arrow ends within the first type, or with the quote after it
      refine absurd ?_ h.1
      rw [hz]
      cases w with
      | nil => exact ⟨a, [], by simp [arrow]⟩
      | cons c w =>
          obtain ⟨rfl, -⟩ := List.cons.inj hw
          exact ⟨a, w ++ ['"'], by simp [arrow]⟩
  · rcases eq_nil_or_of_arrow_append hrest with rfl | ⟨w, -, hw⟩
    · exact List.append_nil _
    · exact absurd ⟨w, b, by rw [hw, List.append_assoc]⟩ h.2

/-- **A link is legible if and only if it is cut in one way only.** -/
theorem legible_iff {l : Link} :
    l.Legible ↔ ∀ a b, a ++ (arrow ++ b) = l.joined → a = l.source.text.toList := by
  refine ⟨fun h a b => h.eq_of_append, fun h => ⟨?_, ?_⟩⟩
  · rintro ⟨a, b, hab⟩
    have hsource : a = l.source.text.toList := by
      refine h a (b ++ ([' ', '-', '>', ' ', '"'] ++ l.target.text.toList)) ?_
      rw [← List.append_assoc, ← List.append_assoc, hab]
      simp [joined, arrow]
    rw [← hsource] at hab
    simpa [arrow] using congrArg List.length hab
  · rintro ⟨a, b, hab⟩
    have hsource : l.source.text.toList ++ (['"', ' ', '-', '>', ' '] ++ a) =
        l.source.text.toList := by
      refine h _ b ?_
      rw [List.append_assoc, List.append_assoc, ← List.append_assoc a, hab]
      simp [joined, arrow]
    simp at hsource

end Link

/-! ### Lines -/

/-- A link, and which behaviours its entry has. -/
@[ext]
structure Mark where
  /-- The link. -/
  link : Link
  /-- Whether it has to be realised. -/
  expands : Bool
  /-- Whether linked resources have to be adjusted. -/
  configures : Bool
deriving DecidableEq

namespace Mark

/-- The names of the behaviours. -/
def label (expands configures : Bool) : List Char :=
  (",".intercalate ((if expands then ["expand"] else []) ++
    if configures then ["configure"] else [])).toList

theorem quote_notMem_label : ∀ expands configures, '"' ∉ label expands configures := by
  decide +kernel

theorem label_inj : ∀ e c e' c', label e c = label e' c' → e = e' ∧ c = c' := by
  decide +kernel

/-- The end of a line, after the types. -/
def ending (m : Mark) : List Char :=
  ['"', ' ', '[', 'l', 'a', 'b', 'e', 'l', '=', '"'] ++
    (label m.expands m.configures ++ ['"', ']', ';', '\n'])

/-- The line of a mark. -/
def line (m : Mark) : List Char := [' ', ' ', '"'] ++ (m.link.joined ++ m.ending)

theorem line_append (m : Mark) (r : List Char) :
    m.line ++ r = [' ', ' ', '"'] ++ (m.link.source.text.toList ++
      '"' :: ([' ', '-', '>', ' ', '"'] ++ (m.link.target.text.toList ++
        '"' :: ([' ', '[', 'l', 'a', 'b', 'e', 'l', '=', '"'] ++ (label m.expands m.configures ++
          '"' :: ([']', ';', '\n'] ++ r)))))) := by
  simp [line, ending, Link.joined, Link.arrow]

/-- The line of a mark without quotes in its types is read back from the start of a text. -/
theorem eq_of_line_append {m m' : Mark} (h : m.link.Unquoted) (h' : m'.link.Unquoted)
    {r r' : List Char} (heq : m.line ++ r = m'.line ++ r') : m = m' ∧ r = r' := by
  rw [line_append, line_append] at heq
  obtain ⟨hsource, heq₁⟩ := Text.eq_of_append_cons_eq h.1 h'.1 (List.append_cancel_left heq)
  obtain ⟨htarget, heq₂⟩ := Text.eq_of_append_cons_eq h.2 h'.2 (List.append_cancel_left heq₁)
  obtain ⟨hlabel, heq₃⟩ := Text.eq_of_append_cons_eq (quote_notMem_label _ _)
    (quote_notMem_label _ _) (List.append_cancel_left heq₂)
  obtain ⟨hexpands, hconfigures⟩ := label_inj _ _ _ _ hlabel
  exact ⟨Mark.ext (Link.eq_of_toList_eq hsource htarget) hexpands hconfigures,
    List.append_cancel_left heq₃⟩

theorem eq_of_flatMap_line {l l' : List Mark} (h : ∀ m ∈ l, m.link.Unquoted)
    (h' : ∀ m ∈ l', m.link.Unquoted) (heq : l.flatMap line = l'.flatMap line) : l = l' := by
  induction l generalizing l' with
  | nil =>
      cases l' with
      | nil => rfl
      | cons m' l' => simp [line] at heq
  | cons m l ih =>
      cases l' with
      | nil => simp [line] at heq
      | cons m' l' =>
          rw [List.forall_mem_cons] at h h'
          rw [List.flatMap_cons, List.flatMap_cons] at heq
          obtain ⟨rfl, hrest⟩ := eq_of_line_append h.1 h'.1 heq
          rw [ih h.2 h'.2 hrest]

/-- A line tells its behaviours, and the types together. -/
theorem line_eq_iff {m m' : Mark} : m.line = m'.line ↔
    m.link.joined = m'.link.joined ∧ m.expands = m'.expands ∧ m.configures = m'.configures := by
  constructor
  · intro h
    -- the behaviours are read from the end of the line
    have hreverse := congrArg List.reverse (List.append_cancel_left h)
    simp only [ending, List.reverse_append, List.append_assoc, List.reverse_cons,
      List.reverse_nil, List.nil_append, List.cons_append, List.cons.injEq, true_and] at hreverse
    obtain ⟨hlabel, hjoined⟩ := Text.eq_of_append_cons_eq
      (mt List.mem_reverse.1 (quote_notMem_label _ _))
      (mt List.mem_reverse.1 (quote_notMem_label _ _)) hreverse
    simp only [List.cons.injEq, true_and, List.reverse_inj] at hjoined
    exact ⟨hjoined, label_inj _ _ _ _ (List.reverse_inj.1 hlabel)⟩
  · rintro ⟨hjoined, hexpands, hconfigures⟩
    rw [line, line, hjoined, ending, ending, hexpands, hconfigures]

/-- The mark whose first type takes in the line of another mark. -/
def behind (m w : Mark) : Mark :=
  { w with link.source.text :=
      String.ofList (m.link.joined ++ (m.ending ++ [' ', ' ', '"'] ++ w.link.source.text.toList)) }

theorem line_behind (m w : Mark) : (m.behind w).line = m.line ++ w.line := by
  simp [line, behind, Link.joined, ending, String.toList_ofList]

/-- The mark whose types take in all other lines. -/
def swallow : Mark → List Mark → Mark
  | m, [] => m
  | m, m' :: l => m.behind (swallow m' l)

/-- Any lines are also the line of one mark. -/
theorem line_swallow (m : Mark) (l : List Mark) : (swallow m l).line = (m :: l).flatMap line := by
  induction l generalizing m with
  | nil => exact (List.append_nil _).symm
  | cons m' l ih => exact (line_behind m _).trans (congrArg (m.line ++ ·) (ih m'))

/-- The first type of a mark that takes in other lines goes on after an arrow of its own. -/
theorem exists_source_swallow (m m' : Mark) (l : List Mark) : ∃ b,
    (swallow m (m' :: l)).link.source.text.toList =
      m.link.source.text.toList ++ (Link.arrow ++ b) :=
  ⟨_, by
    simp only [swallow, behind, String.toList_ofList, Link.joined, List.append_assoc]
    rfl⟩

/-- There is no line without a mark. -/
theorem eq_nil_of_flatMap_line {l : List Mark} (h : l.flatMap line = []) : l = [] := by
  cases l with
  | nil => rfl
  | cons m l => simp [line] at h

/-- A legible link is told by its line among all marks. -/
theorem eq_of_legible {m : Mark} (h : m.link.Legible) {l : List Mark}
    (heq : l.flatMap line = m.line) : l = [m] := by
  cases l with
  | nil => simp [line] at heq
  | cons m' l =>
      rw [← line_swallow, line_eq_iff] at heq
      obtain ⟨hjoined, hexpands, hconfigures⟩ := heq
      cases l with
      | nil =>
          have hsource : m'.link.source.text.toList = m.link.source.text.toList :=
            h.eq_of_append hjoined
          have htarget : m'.link.target.text.toList = m.link.target.text.toList := by
            rw [swallow, Link.joined, Link.joined, hsource] at hjoined
            exact List.append_cancel_left (List.append_cancel_left hjoined)
          rw [show m' = m from
            Mark.ext (Link.eq_of_toList_eq hsource htarget) hexpands hconfigures]
      | cons m₂ l =>
          -- the first type would end at two arrows
          obtain ⟨b, hb⟩ := exists_source_swallow m' m₂ l
          have hlong := h.eq_of_append hjoined
          have hshort : m'.link.source.text.toList = m.link.source.text.toList := by
            refine h.eq_of_append (b := b ++
              (Link.arrow ++ (swallow m' (m₂ :: l)).link.target.text.toList)) ?_
            rw [← hjoined, Link.joined, hb, List.append_assoc, List.append_assoc]
          rw [hb, hshort] at hlong
          simp [Link.arrow] at hlong

/-- A knowledge base with one entry. -/
def base (m : Mark) : KnowledgeBase :=
  (KnowledgeBase.add {} m.link {
    expand := if m.expands then some fun _ _ _ s => (s, .ok ()) else none
    configure := if m.configures then some fun _ _ _ s => (s, .ok ()) else none }).1

end Mark

/-! ### Drawings -/

namespace KnowledgeBase

/-- The links of a knowledge base in their order, and which behaviours they have. -/
def marks (kb : KnowledgeBase) : List Mark :=
  kb.entries.toList.map fun e => ⟨e.1, e.2.expand.isSome, e.2.configure.isSome⟩

/-- There is no quote in the types of the links. -/
def Unquoted (kb : KnowledgeBase) : Prop := ∀ l ∈ kb.links, l.Unquoted

instance (kb : KnowledgeBase) : Decidable kb.Unquoted :=
  inferInstanceAs (Decidable (∀ l ∈ kb.links, l.Unquoted))

theorem marks_base (m : Mark) : m.base.marks = [m] := by
  obtain ⟨l, _ | _, _ | _⟩ := m <;> rfl

theorem Unquoted.of_mem_marks {kb : KnowledgeBase} (h : kb.Unquoted) :
    ∀ m ∈ kb.marks, m.link.Unquoted := by
  intro m hm
  obtain ⟨e, he, rfl⟩ := List.mem_map.1 hm
  exact h e.1 (List.mem_map_of_mem he)

theorem toList_drawingLine (l : Link) (e : LinkEntry) :
    (drawingLine l e).toList = (Mark.line ⟨l, e.expand.isSome, e.configure.isSome⟩) := by
  have hlabel : (",".intercalate ((if e.expand.isSome then ["expand"] else []) ++
      if e.configure.isSome then ["configure"] else [])).toList =
      Mark.label e.expand.isSome e.configure.isSome := rfl
  simp only [drawingLine, String.toList_append, hlabel, List.append_assoc, Mark.line, Mark.ending,
    Link.joined]
  rfl

theorem toList_lines (kb : KnowledgeBase) :
    (String.join (kb.entries.toList.map fun e => drawingLine e.1 e.2)).toList =
      kb.marks.flatMap Mark.line := by
  simp only [String.toList_join, marks, List.flatMap_map, toList_drawingLine]

/-- **Two drawings are the same if and only if their lines are.** -/
theorem drawing_eq_iff {kb kb' : KnowledgeBase} :
    kb'.drawing = kb.drawing ↔ kb'.marks.flatMap Mark.line = kb.marks.flatMap Mark.line := by
  have hcancel (a b s t : String) : a ++ s ++ b = a ++ t ++ b ↔ s.toList = t.toList := by
    rw [← String.toList_inj]
    simp only [String.toList_append, List.append_cancel_right_eq, List.append_cancel_left_eq]
  refine (hcancel _ _ _ _).trans ?_
  rw [toList_lines, toList_lines]

/-- Every knowledge base with the same drawing has the same links, with the same behaviours. -/
def Told (kb : KnowledgeBase) : Prop :=
  ∀ kb' : KnowledgeBase, kb'.drawing = kb.drawing → kb'.marks = kb.marks

/-- If a knowledge base is told by its drawing, then it has one link at most. -/
theorem Told.eq_nil {kb : KnowledgeBase} (h : kb.Told) {m : Mark} {l : List Mark}
    (hkb : kb.marks = m :: l) : l = [] := by
  have hmarks := h (Mark.swallow m l).base (drawing_eq_iff.2 (by
    rw [marks_base, hkb, List.flatMap_singleton, Mark.line_swallow]))
  rw [marks_base, hkb] at hmarks
  exact (List.cons.inj hmarks).2.symm

/-- If a knowledge base with one link is told by its drawing, then the link is legible. -/
theorem Told.legible {kb : KnowledgeBase} (h : kb.Told) {m : Mark} (hkb : kb.marks = [m]) :
    m.link.Legible := by
  rw [Link.legible_iff]
  intro a b hcut
  let other : Mark := { m with link := ⟨⟨String.ofList a⟩, ⟨String.ofList b⟩⟩ }
  have hline : other.line = m.line :=
    Mark.line_eq_iff.2 ⟨by simpa only [other, Link.joined, String.toList_ofList] using hcut,
      rfl, rfl⟩
  have hmarks := h other.base (drawing_eq_iff.2 (by
    rw [marks_base, hkb, List.flatMap_singleton, List.flatMap_singleton, hline]))
  rw [marks_base, hkb] at hmarks
  rw [← (List.cons.inj hmarks).1]
  exact String.toList_ofList.symm

/-- **What the drawing of a knowledge base tells.**  Among all knowledge bases only an empty one and
one with a single legible link are told by their drawings: with two links there is always another
knowledge base, with a type that takes in a line.  Among knowledge bases without quotes in their
types the drawing tells all links and their behaviours. -/
theorem drawing_tells_iff (kb : KnowledgeBase) :
    (kb.Told ↔ kb.marks = [] ∨ ∃ m, kb.marks = [m] ∧ m.link.Legible) ∧
      (kb.Unquoted → ∀ kb' : KnowledgeBase, kb'.Unquoted → kb'.drawing = kb.drawing →
        kb'.marks = kb.marks) := by
  refine ⟨⟨fun h => ?_, fun h kb' heq => ?_⟩, fun h kb' h' heq => ?_⟩
  · match hkb : kb.marks with
    | [] => exact .inl rfl
    | m :: l =>
        obtain rfl := h.eq_nil hkb
        exact .inr ⟨m, rfl, h.legible hkb⟩
  · rw [drawing_eq_iff] at heq
    rcases h with hkb | ⟨m, hkb, hm⟩
    · rw [hkb] at heq ⊢
      exact Mark.eq_nil_of_flatMap_line heq
    · rw [hkb, List.flatMap_singleton] at heq
      rw [hkb]
      exact Mark.eq_of_legible hm heq
  · exact Mark.eq_of_flatMap_line h'.of_mem_marks h.of_mem_marks (drawing_eq_iff.1 heq)

/-- Two links, of which the first may be restricted to chains with given ends. -/
def pairOfLinks (destinations : List TypeTag) : KnowledgeBase :=
  ((add {} ⟨⟨"a"⟩, ⟨"b"⟩⟩ { expand := some fun _ _ _ s => (s, .ok ()), destinations }).1.add
    ⟨⟨"b"⟩, ⟨"c"⟩⟩ {}).1

theorem drawing_tells_iff_pairOfLinks :
    (pairOfLinks [⟨"c"⟩]).marks = (pairOfLinks []).marks ∧ ¬ (pairOfLinks []).Told := by
  refine ⟨(drawing_tells_iff _).2 (by decide) _ (by decide) rfl, fun h => ?_⟩
  rcases (drawing_tells_iff _).1.1 h with hnil | ⟨m, hm, -⟩
  · exact absurd (show 2 = 0 from congrArg List.length hnil) (by decide)
  · exact absurd (show 2 = 1 from congrArg List.length hm) (by decide)

/-- A quote in a type: what looks like an arrow may belong to either end. -/
theorem not_forall_drawing_tells :
    ¬ ∀ kb kb' : KnowledgeBase, kb'.drawing = kb.drawing → kb'.marks = kb.marks := by
  intro h
  have hmarks := h (Mark.base ⟨⟨⟨"a"⟩, ⟨"b\" -> \"c"⟩⟩, false, false⟩)
    (Mark.base ⟨⟨⟨"a\" -> \"b"⟩, ⟨"c"⟩⟩, false, false⟩) rfl
  rw [marks_base, marks_base] at hmarks
  exact absurd hmarks (by decide)

end KnowledgeBase

end Groundwork
