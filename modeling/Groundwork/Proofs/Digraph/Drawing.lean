/-
What the DOT text of a graph tells.

Ids are written between quotes, whatever characters they have, so an id may hold what looks like the
rest of a line or like further lines.  Inside of quotes every quote and every backslash has a
backslash before it, and a reader that keeps track of this always knows whether it is inside.  What
it finds outside are the fixed parts of the lines, and from these the lines can be told apart.

Main definitions:

* `Groundwork.Dot.Token`, `Groundwork.Dot.tokens` — quoted texts, and the characters outside;
* `Groundwork.Dot.Drawing`, `Groundwork.Dot.Drawing.text` — a name, vertices and edges, and how they
  are written;
* `Groundwork.Dot.Drawing.read?` — the reader;
* `Groundwork.Digraph.depict` — what is drawn of a graph.

Main results:

* `Groundwork.Dot.tokens_quote` — a quoted text is one token;
* `Groundwork.Dot.lines_text` — the lines of a drawing;
* `Groundwork.Dot.Drawing.read?_eq_some_iff` — the reader accepts what is written, and nothing else;
* `Groundwork.Digraph.toDot_readBack` — **the DOT text of a graph is read back**.
-/
import Groundwork.Digraph.Dot
import Mathlib.Data.List.Basic

set_option relaxedAutoImplicit false
set_option autoImplicit false

namespace Groundwork

namespace Dot

/-! ### Tokens -/

/-- A piece of DOT text. -/
inductive Token where
  /-- A text in quotes, without the quotes and the backslashes before other characters. -/
  | text (value : String)
  /-- A character outside of quotes. -/
  | mark (value : Char)
deriving DecidableEq

/-- The text that stands in quotes. -/
def Token.text? : Token → Option String
  | .text s => some s
  | .mark _ => none

/-- Where a reader is. -/
inductive Place where
  /-- Outside of quotes. -/
  | outside
  /-- Inside of quotes, with what was read there, backwards. -/
  | inside (read : List Char)
  /-- Inside of quotes and after a backslash. -/
  | escaped (read : List Char)

/-- The tokens from a place on; a text that does not end is left out. -/
def tokensFrom : Place → List Char → List Token
  | .outside, c :: cs =>
    if c = '"' then tokensFrom (.inside []) cs else .mark c :: tokensFrom .outside cs
  | .inside read, c :: cs =>
    if c = '"' then .text (String.ofList read.reverse) :: tokensFrom .outside cs
    else if c = '\\' then tokensFrom (.escaped read) cs
    else tokensFrom (.inside (c :: read)) cs
  | .escaped read, c :: cs => tokensFrom (.inside (c :: read)) cs
  | _, [] => []

/-- The tokens of a text. -/
def tokens (cs : List Char) : List Token := tokensFrom .outside cs

/-- Inside of quotes the text is read on up to the next quote without a backslash. -/
theorem tokensFrom_inside (cs read rest : List Char) :
    tokensFrom (.inside read) (cs.flatMap (fun c =>
      if c = '\\' || c = '"' then ['\\', c] else [c]) ++ '"' :: rest) =
      .text (String.ofList (read.reverse ++ cs)) :: tokens rest := by
  induction cs generalizing read with
  | nil =>
      rw [List.append_nil]
      rfl
  | cons c cs ih =>
      have hread : (c :: read).reverse ++ cs = read.reverse ++ c :: cs := by simp
      rw [List.flatMap_cons, List.append_assoc, ← hread, ← ih]
      split
      case isTrue hspecial => rfl
      case isFalse hplain =>
          rw [Bool.or_eq_true, decide_eq_true_eq, decide_eq_true_eq, not_or] at hplain
          rw [List.singleton_append, tokensFrom, if_neg hplain.2, if_neg hplain.1]

/-- **A quoted text is one token**, whatever its characters. -/
theorem tokens_quote (s : String) (rest : List Char) :
    tokens ((quote s).toList ++ rest) = .text s :: tokens rest := by
  have hinside := tokensFrom_inside s.toList [] rest
  rw [List.reverse_nil, List.nil_append, String.ofList_toList] at hinside
  simp only [quote, String.toList_append, String.toList_ofList, List.append_assoc]
  exact hinside

/-- How a token is written. -/
def Token.chars : Token → List Char
  | .text s => (quote s).toList
  | .mark c => [c]

/-- Tokens are read back, unless a quote stands for itself. -/
theorem tokens_chars {l : List Token} (h : .mark '"' ∉ l) (rest : List Char) :
    tokens (l.flatMap Token.chars ++ rest) = l ++ tokens rest := by
  induction l with
  | nil => rfl
  | cons t l ih =>
      rw [List.mem_cons, not_or] at h
      rw [List.flatMap_cons, List.append_assoc, List.cons_append, ← ih h.2]
      cases t with
      | text s => exact tokens_quote s _
      | mark c =>
          have hc : c ≠ '"' := fun heq => h.1 (heq ▸ rfl)
          exact if_neg hc

/-! ### Lines -/

/-- The tokens of each line; line breaks inside of quotes break no line. -/
def lines (cs : List Char) : List (List Token) := (tokens cs).splitOn (.mark '\n')

/-- The text `s` is one line, and is written with the tokens `line`. -/
structure Spells (line : List Token) (s : String) : Prop where
  /-- No quote stands for itself. -/
  quote_notMem : .mark '"' ∉ line
  /-- There is no line break before the end. -/
  break_notMem : .mark '\n' ∉ line
  /-- The tokens are written one after another, and then the line break. -/
  toList_eq : s.toList = line.flatMap Token.chars ++ ['\n']

theorem Spells.lines_append {line : List Token} {s : String} (h : Spells line s)
    (rest : String) : lines (s ++ rest).toList = line :: lines rest.toList := by
  rw [lines, String.toList_append, h.toList_eq, List.append_assoc, tokens_chars h.quote_notMem]
  exact List.splitOn_append_cons_self_of_not_mem h.break_notMem _

theorem Spells.lines_eq {line : List Token} {s : String} (h : Spells line s) :
    lines s.toList = [line, []] := by
  have hlast := h.lines_append ""
  rwa [String.append_empty] at hlast

theorem lines_join {α : Type} {line : α → List Token} {text : α → String}
    (h : ∀ a, Spells (line a) (text a)) (l : List α) (rest : String) :
    lines (String.join (l.map text) ++ rest).toList = l.map line ++ lines rest.toList := by
  induction l with
  | nil => rw [List.map_nil, List.map_nil, String.join_nil, String.empty_append, List.nil_append]
  | cons a l ih =>
      rw [List.map_cons, String.join_cons, String.append_assoc, (h a).lines_append, ih,
        List.map_cons, List.cons_append]

/-- Characters outside of quotes. -/
def marks (s : String) : List Token := s.toList.map .mark

theorem chars_marks (s : String) : (marks s).flatMap Token.chars = s.toList := by
  rw [marks, List.flatMap_map]
  exact List.flatMap_singleton' s.toList

theorem filterMap_marks (s : String) : (marks s).filterMap Token.text? = [] :=
  List.filterMap_eq_nil_iff.2 fun t ht => by
    obtain ⟨c, -, rfl⟩ := List.mem_map.1 ht
    rfl

/-- The tokens of the line that gives the name. -/
def nameLine (name : String) : List Token := marks "digraph " ++ [.text name] ++ marks " \x7b"

/-- The tokens of the line of a vertex. -/
def vertexLine (id : String) : List Token :=
  marks "  " ++ [.text id] ++ marks " [label=" ++ [.text id] ++ marks "];"

/-- The tokens of the line of an edge. -/
def edgeLine (e : String × String) : List Token :=
  marks "  " ++ [.text e.1] ++ marks " -> " ++ [.text e.2] ++ marks ";"

/-- The line that gives the name. -/
def nameText (name : String) : String := "digraph " ++ quote name ++ " \x7b\n"

theorem spells_name (name : String) : Spells (nameLine name) (nameText name) where
  quote_notMem := by simp [nameLine, marks]
  break_notMem := by simp [nameLine, marks]
  toList_eq := by simp [nameLine, nameText, chars_marks, Token.chars]

theorem spells_vertex (id : String) : Spells (vertexLine id) (Digraph.dotVertex id "") where
  quote_notMem := by simp [vertexLine, marks]
  break_notMem := by simp [vertexLine, marks]
  toList_eq := by simp [vertexLine, chars_marks, Token.chars, Digraph.dotVertex]

theorem spells_edge (e : String × String) : Spells (edgeLine e) (Digraph.dotEdge e.1 e.2) where
  quote_notMem := by simp [edgeLine, marks]
  break_notMem := by simp [edgeLine, marks]
  toList_eq := by simp [edgeLine, chars_marks, Token.chars, Digraph.dotEdge]

/-! ### Reading lines -/

/-- What a line was written for, given how its quoted texts are taken.  The line has to be the one
that is written. -/
def readAs? {α : Type} (take : List String → Option α) (line : α → List Token)
    (l : List Token) : Option α :=
  (take (l.filterMap Token.text?)).filter fun a => l = line a

theorem readAs?_eq_some_iff {α : Type} {take : List String → Option α} {line : α → List Token}
    (h : ∀ a, take ((line a).filterMap Token.text?) = some a) {l : List Token} {a : α} :
    readAs? take line l = some a ↔ l = line a := by
  rw [readAs?, Option.filter_eq_some_iff, decide_eq_true_eq]
  constructor
  · exact And.right
  · rintro rfl
    exact ⟨h a, rfl⟩

/-- The two ends of an edge. -/
def ends? : List String → Option (String × String)
  | [s, t] => some (s, t)
  | _ => none

/-- The name in the first line of a drawing. -/
def nameOf? : List Token → Option String := readAs? List.head? nameLine

/-- The id in the line of a vertex. -/
def vertexOf? : List Token → Option String := readAs? List.head? vertexLine

/-- The ends in the line of an edge. -/
def edgeOf? : List Token → Option (String × String) := readAs? ends? edgeLine

theorem nameOf?_eq_some_iff {l : List Token} {name : String} :
    nameOf? l = some name ↔ l = nameLine name :=
  readAs?_eq_some_iff fun name => by
    simp only [nameLine, List.filterMap_append, filterMap_marks]
    rfl

theorem vertexOf?_eq_some_iff {l : List Token} {id : String} :
    vertexOf? l = some id ↔ l = vertexLine id :=
  readAs?_eq_some_iff fun id => by
    simp only [vertexLine, List.filterMap_append, filterMap_marks]
    rfl

theorem edgeOf?_eq_some_iff {l : List Token} {e : String × String} :
    edgeOf? l = some e ↔ l = edgeLine e :=
  readAs?_eq_some_iff fun e => by
    simp only [edgeLine, List.filterMap_append, filterMap_marks]
    rfl

theorem filterMap_map_of_some {α β : Type} {f : β → Option α} {g : α → β}
    (h : ∀ a, f (g a) = some a) (l : List α) : (l.map g).filterMap f = l := by
  have hcomp : f ∘ g = some := funext h
  rw [List.filterMap_map, hcomp]
  exact List.filterMap_some

@[simp] theorem length_vertexLine (id : String) : (vertexLine id).length = 14 := rfl

@[simp] theorem length_edgeLine (e : String × String) : (edgeLine e).length = 9 := rfl

theorem vertexOf?_of_length {l : List Token} (h : l.length ≠ 14) : vertexOf? l = none :=
  Option.eq_none_iff_forall_ne_some.2 fun id hid =>
    h (by rw [vertexOf?_eq_some_iff.1 hid, length_vertexLine])

theorem edgeOf?_of_length {l : List Token} (h : l.length ≠ 9) : edgeOf? l = none :=
  Option.eq_none_iff_forall_ne_some.2 fun e he =>
    h (by rw [edgeOf?_eq_some_iff.1 he, length_edgeLine])

/-! ### Drawings -/

/-- What is drawn. -/
structure Drawing where
  /-- The name. -/
  name : String
  /-- The vertices, in the order in which they are drawn. -/
  vertices : List String
  /-- The edges, in the order in which they are drawn. -/
  edges : List (String × String)
deriving DecidableEq

namespace Drawing

/-- The settings for all vertices. -/
def settingsText : String :=
  "  node [shape=box, style=\"filled,rounded\", fontname=\"Helvetica\", fontsize=10];\n"

/-- The text of a drawing. -/
def text (d : Drawing) : String :=
  nameText d.name ++ ("  rankdir=LR;\n" ++ (settingsText ++ ("\n" ++
    (String.join (d.vertices.map fun id => Digraph.dotVertex id "") ++ ("\n" ++
      (String.join (d.edges.map fun e => Digraph.dotEdge e.1 e.2) ++ "\x7d\n"))))))

/-- The line with the settings for all vertices. -/
def settingsLine : List Token :=
  marks "  node [shape=box, style=" ++ [.text "filled,rounded"] ++ marks ", fontname=" ++
    [.text "Helvetica"] ++ marks ", fontsize=10];"

theorem spells_layout : Spells (marks "  rankdir=LR;") "  rankdir=LR;\n" where
  quote_notMem := by simp [marks]
  break_notMem := by simp [marks]
  toList_eq := rfl

theorem spells_settings : Spells settingsLine settingsText where
  quote_notMem := by simp [settingsLine, marks]
  break_notMem := by simp [settingsLine, marks]
  toList_eq := by decide +kernel

theorem spells_blank : Spells [] "\n" where
  quote_notMem := List.not_mem_nil
  break_notMem := List.not_mem_nil
  toList_eq := rfl

theorem spells_end : Spells (marks "\x7d") "\x7d\n" where
  quote_notMem := by simp [marks]
  break_notMem := by simp [marks]
  toList_eq := rfl

/-- **The lines of a drawing.** -/
theorem lines_text (d : Drawing) :
    lines d.text.toList = nameLine d.name :: marks "  rankdir=LR;" :: settingsLine :: [] ::
      (d.vertices.map vertexLine ++ [] :: (d.edges.map edgeLine ++ [marks "\x7d", []])) := by
  rw [text, (spells_name d.name).lines_append, spells_layout.lines_append,
    spells_settings.lines_append, spells_blank.lines_append, lines_join spells_vertex,
    spells_blank.lines_append, lines_join spells_edge, spells_end.lines_eq]

/-- What the lines of a text were written for, whether they stand in a proper order or not. -/
def ofLines? : List (List Token) → Option Drawing
  | [] => none
  | first :: rest =>
    (nameOf? first).map fun name => ⟨name, rest.filterMap vertexOf?, rest.filterMap edgeOf?⟩

/-- The drawing that was written as a text. -/
def read? (s : String) : Option Drawing := (ofLines? (lines s.toList)).filter fun d => d.text = s

theorem ofLines?_text (d : Drawing) : ofLines? (lines d.text.toList) = some d := by
  have hvertices : (d.vertices.map vertexLine).filterMap vertexOf? = d.vertices :=
    filterMap_map_of_some (fun _ => vertexOf?_eq_some_iff.2 rfl) _
  have hedges : (d.edges.map edgeLine).filterMap edgeOf? = d.edges :=
    filterMap_map_of_some (fun _ => edgeOf?_eq_some_iff.2 rfl) _
  -- the lines of vertices and of edges are told from each other and from the rest by their length
  have hnoEdges : (d.vertices.map vertexLine).filterMap edgeOf? = [] :=
    List.filterMap_eq_nil_iff.2 (List.forall_mem_map.2 fun _ _ => edgeOf?_of_length (by simp))
  have hnoVertices : (d.edges.map edgeLine).filterMap vertexOf? = [] :=
    List.filterMap_eq_nil_iff.2 (List.forall_mem_map.2 fun _ _ => vertexOf?_of_length (by simp))
  have hrest : ∀ l ∈ [marks "  rankdir=LR;", settingsLine, [], marks "\x7d"],
      vertexOf? l = none ∧ edgeOf? l = none := by
    intro l hl
    have hlength : l.length ≠ 14 ∧ l.length ≠ 9 := by
      revert l
      decide
    exact ⟨vertexOf?_of_length hlength.1, edgeOf?_of_length hlength.2⟩
  simp only [List.forall_mem_cons] at hrest
  obtain ⟨hlayout, hsettings, hblank, hbrace, -⟩ := hrest
  rw [lines_text, ofLines?, nameOf?_eq_some_iff.2 rfl]
  simp only [List.filterMap_cons, List.filterMap_append, hlayout, hsettings, hblank, hbrace,
    hvertices, hedges, hnoVertices, hnoEdges, List.filterMap_nil, List.append_nil, List.nil_append]
  rfl

/-- **The reader accepts what is written, and nothing else.** -/
theorem read?_eq_some_iff {s : String} {d : Drawing} : read? s = some d ↔ s = d.text := by
  rw [read?, Option.filter_eq_some_iff, decide_eq_true_eq]
  constructor
  · rintro ⟨-, rfl⟩
    rfl
  · rintro rfl
    exact ⟨ofLines?_text d, rfl⟩

theorem text_injective : Function.Injective text := fun _ _ h =>
  Option.some.inj ((read?_eq_some_iff.2 rfl).symm.trans (read?_eq_some_iff.2 h))

end Drawing

end Dot

namespace Digraph

variable {V D : Type}

/-- What is drawn of a graph: the ids of the vertices in their order, and the ends of the edges by
slot. -/
def depict (g : Digraph V D) (name : String) : Dot.Drawing where
  name
  vertices := g.ids
  edges := g.arcsBySlot.map fun a => (a.source, a.target)

theorem toDot_eq (g : Digraph V D) (name : String) : g.toDot name = (g.depict name).text := by
  unfold toDot toDotWith
  simp only [Dot.Drawing.text, Dot.nameText, Dot.Drawing.settingsText, depict, ids, Table.keys,
    Table.toList, List.map_map, Function.comp_def, String.append_assoc]

/-- **The DOT text of a graph is read back**, whatever its name and its ids are: the reader finds
the name, the ids of the vertices in their order, and the ends of the edges by slot.  Two graphs
that differ in any of these have different texts. -/
theorem toDot_readBack (g : Digraph V D) (name : String) :
    Dot.Drawing.read? (g.toDot name) =
        some ⟨name, g.ids, g.arcsBySlot.map fun a => (a.source, a.target)⟩ ∧
      ∀ (V' D' : Type) (g' : Digraph V' D') (name' : String),
        g'.toDot name' = g.toDot name ↔ name' = name ∧ g'.ids = g.ids ∧
          (g'.arcsBySlot.map fun a => (a.source, a.target)) =
            g.arcsBySlot.map fun a => (a.source, a.target) := by
  refine ⟨Dot.Drawing.read?_eq_some_iff.2 (g.toDot_eq name), fun V' D' g' name' => ?_⟩
  rw [toDot_eq, toDot_eq, Dot.Drawing.text_injective.eq_iff, depict, depict,
    Dot.Drawing.mk.injEq]

/-- The id of the vertex ends its quotes and its line, or so it looks. -/
example :
    let g : Digraph Unit Unit := ({} : Digraph Unit Unit).insertVertex "\"];\n" ()
    Dot.Drawing.read? (g.toDot "") = some ⟨"", ["\"];\n"], []⟩ := by
  decide +kernel

end Digraph

end Groundwork
