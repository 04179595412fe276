/-
The nodes of data as they are written.

The parser makes one node of the tokens of a value, and the nodes of a collection from those of its
items or members.

Main definitions:

* `Groundwork.Yaml.nodeOf` — the node that a value is written as.

Main results:

* `Groundwork.Yaml.Parsing.reads_of_texts` — the tokens of a value are read as its node;
* `Groundwork.Yaml.parse_render` — **the text of a record is one document**, whose root is the node
  of the record.
-/
import Groundwork.Proofs.Yaml.Blocks
import Groundwork.Yaml.Node

set_option relaxedAutoImplicit false
set_option autoImplicit false

namespace Groundwork.Yaml

open Lexer (scalarToken)

/-! ### Nodes of data -/

/-- The node that a text is written as. -/
def wordNode (s : String) : Node := .scalar s (decide (styleOf s = .plain))

mutual

/-- The node that a value is written as. -/
def nodeOf : Datum → Node
  | .text s => wordNode s
  | .list ds => .sequence (nodesOf ds)
  | .record ms => .mapping (entriesOf ms)
  | _ => .empty

/-- The nodes that items are written as. -/
def nodesOf : List Datum → List Node
  | [] => []
  | d :: ds => nodeOf d :: nodesOf ds

/-- The entries that members are written as. -/
def entriesOf : List (String × Datum) → List (Node × Node)
  | [] => []
  | (k, d) :: ms => (wordNode k, nodeOf d) :: entriesOf ms

end

theorem nodesOf_eq_map (ds : List Datum) : nodesOf ds = ds.map nodeOf := by
  induction ds with
  | nil => rfl
  | cons d ds ih => rw [nodesOf, ih, List.map_cons]

theorem entriesOf_eq_map (ms : List (String × Datum)) :
    entriesOf ms = ms.map fun m => (wordNode m.1, nodeOf m.2) := by
  induction ms with
  | nil => rfl
  | cons m ms ih => rw [entriesOf, ih, List.map_cons]

/-- A token that a value may start with; where the items of a list stand for themselves, their dash
may, too. -/
def Starts (flat : Bool) (t : Token) : Prop :=
  t ∉ [.key, .value, .blockEnd] ∧ (flat = false → t ≠ .blockEntry)

theorem exists_starts_valueTokens {P : String → Prop} {d : Datum} (h : d.Texts P) (flat : Bool) :
    ∃ t ts, valueTokens flat d = t :: ts ∧ Starts flat t := by
  cases h with
  | text => exact ⟨_, _, rfl, by simp [Starts, scalarToken]⟩
  | @list l =>
      cases l with
      | nil => exact ⟨_, _, rfl, by simp [Starts]⟩
      | cons d ds => cases flat <;> exact ⟨_, _, rfl, by simp [Starts]⟩
  | @record l => cases l <;> exact ⟨_, _, rfl, by simp [Starts]⟩

namespace Parsing

/-- The state with these tokens still to be read. -/
def seeing (p : Parsing) (ts : List Token) : Parsing := { p with tokens := ts }

@[simp] theorem peek_seeing (p : Parsing) (ts : List Token) :
    peek.run (p.seeing ts) = some (ts.head?, p.seeing ts) := rfl

@[simp] theorem skip_seeing (p : Parsing) (t : Token) (ts : List Token) :
    skip.run (p.seeing (t :: ts)) = some ((), p.seeing ts) := rfl

@[simp] theorem nextIn_seeing (p : Parsing) (l : List (Option Token)) (ts : List Token) :
    (nextIn l).run (p.seeing ts) = some (l.contains ts.head?, p.seeing ts) := rfl

theorem readPrelude_seeing (p : Parsing) {t : Token} (ts : List Token)
    (htag : ∀ handle, t ≠ .tag handle) (hanchor : ∀ name, t ≠ .anchor name) :
    readPrelude.run (p.seeing (t :: ts)) = some ({}, p.seeing (t :: ts)) := by
  simp [readPrelude, readTag, readAnchor, htag, hanchor]

section Node

variable (p : Parsing) (n : ℕ) (block indentless : Bool) (rest : List Token)

theorem node_scalar (text : String) (plain : Bool) :
    (node (n + 1) block indentless).run (p.seeing (.scalar text plain :: rest)) =
      some (.scalar text plain, p.seeing rest) := by
  rw [node]
  simp [readPrelude_seeing]

theorem node_flowSequence :
    (node (n + 2) block indentless).run (p.seeing (.flowSequence :: .flowSequenceEnd :: rest)) =
      some (.sequence [], p.seeing rest) := by
  rw [node]
  simp [readPrelude_seeing, flowItems]

theorem node_flowMapping :
    (node (n + 2) block indentless).run (p.seeing (.flowMapping :: .flowMappingEnd :: rest)) =
      some (.mapping [], p.seeing rest) := by
  rw [node]
  simp [readPrelude_seeing, flowEntries]

theorem node_blockSequence :
    (node (n + 1) true indentless).run (p.seeing (.blockSequence :: rest)) =
      (Node.sequence <$> blockItems n).run (p.seeing rest) := by
  rw [node]
  simp [readPrelude_seeing]

theorem node_blockMapping :
    (node (n + 1) true indentless).run (p.seeing (.blockMapping :: rest)) =
      (Node.mapping <$> blockEntries n).run (p.seeing rest) := by
  rw [node]
  simp [readPrelude_seeing]

theorem node_blockEntry :
    (node (n + 1) block true).run (p.seeing (.blockEntry :: rest)) =
      (Node.sequence <$> indentlessItems n).run (p.seeing (.blockEntry :: rest)) := by
  rw [node]
  simp [readPrelude_seeing]

end Node

/-! ### Values -/

/-- The tokens of a value are read as its node, whatever comes after them; where the items of a list
stand for themselves, no other item may follow. -/
def Reads (d : Datum) : Prop :=
  ∀ (p : Parsing) (flat indentless : Bool) (n : ℕ) (rest : List Token),
    (flat = true → indentless = true ∧ rest.head? ≠ some .blockEntry) →
    3 * (valueTokens flat d).length + 2 ≤ n →
    (node n true indentless).run (p.seeing (valueTokens flat d ++ rest)) =
      some (nodeOf d, p.seeing rest)

section Collections

variable {P : String → Prop} {stops : List (Option Token)} {flat indentless : Bool} {n : ℕ}
  {rest : List Token} {d : Datum}

/-- A value is read where nothing might stand, too. -/
theorem Reads.unless (hd : Reads d) (htexts : d.Texts P)
    (hstops : ∀ t, Starts flat t → some t ∉ stops)
    (hflat : flat = true → indentless = true ∧ rest.head? ≠ some .blockEntry)
    (hn : 3 * (valueTokens flat d).length + 3 ≤ n) (p : Parsing) :
    (nodeUnless n stops true indentless).run (p.seeing (valueTokens flat d ++ rest)) =
      some (nodeOf d, p.seeing rest) := by
  obtain ⟨t, ts, htokens, hstarts⟩ := exists_starts_valueTokens htexts flat
  have hread := hd p flat indentless (n - 1) rest hflat (by omega)
  obtain ⟨n, rfl⟩ : ∃ m, n = m + 1 := ⟨n - 1, by omega⟩
  rw [htokens, List.cons_append] at hread ⊢
  rw [nodeUnless]
  simpa [hstops t hstarts] using hread

/-- The items of a sequence are read up to its end. -/
theorem blockItems_itemTokens {ds : List Datum} (htexts : ∀ d ∈ ds, d.Texts P)
    (hds : ∀ d ∈ ds, Reads d) (hn : 3 * (itemTokens ds).length + 4 ≤ n) (p : Parsing)
    (rest : List Token) :
    (blockItems n).run (p.seeing (itemTokens ds ++ .blockEnd :: rest)) =
      some (nodesOf ds, p.seeing rest) := by
  induction ds generalizing n with
  | nil =>
      obtain ⟨n, rfl⟩ : ∃ m, n = m + 1 := ⟨n - 1, by omega⟩
      rw [blockItems]
      simp [itemTokens, nodesOf]
  | cons d ds ih =>
      obtain ⟨n, rfl⟩ : ∃ m, n = m + 1 := ⟨n - 1, by omega⟩
      rw [List.forall_mem_cons] at htexts hds
      simp only [itemTokens, List.length_cons, List.length_append] at hn
      have hitem : (nodeUnless n [some .blockEntry, some .blockEnd] true false).run
          (p.seeing (valueTokens false d ++ (itemTokens ds ++ .blockEnd :: rest))) =
            some (nodeOf d, p.seeing (itemTokens ds ++ .blockEnd :: rest)) :=
        hds.1.unless htexts.1 (by simp +contextual [Starts]) (by simp) (by omega) p
      have hitems := ih htexts.2 hds.2 (n := n) (by omega)
      rw [blockItems, nodesOf, itemTokens]
      simp [hitem, hitems]

/-- The items that stand as far out as their key are read up to what is no item. -/
theorem indentlessItems_itemTokens {ds : List Datum} (htexts : ∀ d ∈ ds, d.Texts P)
    (hds : ∀ d ∈ ds, Reads d) (hrest : rest.head? ≠ some .blockEntry)
    (hn : 3 * (itemTokens ds).length + 1 ≤ n) (p : Parsing) :
    (indentlessItems n).run (p.seeing (itemTokens ds ++ rest)) =
      some (nodesOf ds, p.seeing rest) := by
  induction ds generalizing n with
  | nil =>
      obtain ⟨n, rfl⟩ : ∃ m, n = m + 1 := ⟨n - 1, by omega⟩
      rw [indentlessItems, nodesOf, itemTokens]
      simp
  | cons d ds ih =>
      obtain ⟨n, rfl⟩ : ∃ m, n = m + 1 := ⟨n - 1, by omega⟩
      rw [List.forall_mem_cons] at htexts hds
      simp only [itemTokens, List.length_cons, List.length_append] at hn
      have hitem : (nodeUnless n
          [some .blockEntry, some .key, some .value, some .blockEnd] true false).run
            (p.seeing (valueTokens false d ++ (itemTokens ds ++ rest))) =
              some (nodeOf d, p.seeing (itemTokens ds ++ rest)) :=
        hds.1.unless htexts.1 (by simp +contextual [Starts]) (by simp) (by omega) p
      have hitems := ih htexts.2 hds.2 (n := n) (by omega)
      rw [indentlessItems, nodesOf, itemTokens]
      simp [hitem, hitems]

/-- After a member comes another one or the end of the mapping. -/
theorem head?_fieldTokens (ms : List (String × Datum)) :
    (fieldTokens ms ++ .blockEnd :: rest).head? ≠ some .blockEntry := by
  cases ms <;> simp [fieldTokens]

/-- The members of a mapping are read up to its end. -/
theorem blockEntries_fieldTokens {ms : List (String × Datum)} (htexts : ∀ m ∈ ms, m.2.Texts P)
    (hms : ∀ m ∈ ms, Reads m.2) (hn : 3 * (fieldTokens ms).length + 4 ≤ n) (p : Parsing)
    (rest : List Token) :
    (blockEntries n).run (p.seeing (fieldTokens ms ++ .blockEnd :: rest)) =
      some (entriesOf ms, p.seeing rest) := by
  induction ms generalizing n with
  | nil =>
      obtain ⟨n, rfl⟩ : ∃ m, n = m + 1 := ⟨n - 1, by omega⟩
      rw [blockEntries, entriesOf, fieldTokens]
      simp
  | cons m ms ih =>
      -- the indicators and the key of a member are three tokens, which pay for its steps
      obtain ⟨n, rfl⟩ : ∃ m, n = m + 3 := ⟨n - 3, by omega⟩
      rw [List.forall_mem_cons] at htexts hms
      simp only [fieldTokens, List.length_cons, List.length_append] at hn
      let after := fieldTokens ms ++ .blockEnd :: rest
      have hkey : (nodeUnless (n + 2) [some .key, some .value, some .blockEnd] true true).run
          (p.seeing (scalarToken m.1 :: .value :: (valueTokens (isSimpleKey m.1) m.2 ++ after))) =
            some (wordNode m.1,
              p.seeing (.value :: (valueTokens (isSimpleKey m.1) m.2 ++ after))) := by
        rw [nodeUnless]
        simpa [scalarToken, wordNode] using node_scalar p n true true _ m.1 _
      have hvalue : (nodeUnless (n + 2) [some .key, some .value, some .blockEnd] true true).run
          (p.seeing (valueTokens (isSimpleKey m.1) m.2 ++ after)) =
            some (nodeOf m.2, p.seeing after) :=
        hms.1.unless htexts.1 (by simp +contextual [Starts]) (fun _ => ⟨rfl, head?_fieldTokens ms⟩)
          (by omega) p
      have hentries := ih htexts.2 hms.2 (n := n + 2) (by omega)
      rw [blockEntries, entriesOf, fieldTokens]
      simp [hkey, hvalue, hentries, after]

end Collections

/-- The tokens of a value are read as its node. -/
theorem reads_of_texts {P : String → Prop} {d : Datum} (h : d.Texts P) : Reads d := by
  induction h with
  | @text s =>
      intro p flat indentless n rest _ hn
      obtain ⟨n, rfl⟩ : ∃ m, n = m + 1 := ⟨n - 1, by omega⟩
      exact node_scalar p n true indentless rest s _
  | @list l htexts ih =>
      intro p flat indentless n rest hflat hn
      obtain ⟨n, rfl⟩ : ∃ m, n = m + 2 := ⟨n - 2, by omega⟩
      cases l with
      | nil => exact node_flowSequence p n true indentless rest
      | cons d ds =>
          cases flat with
          | true =>
              obtain ⟨rfl, hrest⟩ := hflat rfl
              rw [valueTokens, if_pos rfl] at hn ⊢
              have hitems := indentlessItems_itemTokens htexts ih hrest (n := n + 1) (by omega) p
              rw [itemTokens, List.cons_append] at hitems ⊢
              rw [node_blockEntry, StateT.run_map, hitems]
              rfl
          | false =>
              rw [valueTokens, if_neg Bool.false_ne_true] at hn ⊢
              simp only [List.length_cons, List.length_append, List.length_nil] at hn
              have hitems := blockItems_itemTokens htexts ih (n := n + 1) (by omega) p rest
              rw [List.cons_append, List.append_assoc, node_blockSequence, StateT.run_map]
              rw [List.singleton_append, hitems]
              rfl
  | @record l _ htexts ih =>
      intro p flat indentless n rest _ hn
      obtain ⟨n, rfl⟩ : ∃ m, n = m + 2 := ⟨n - 2, by omega⟩
      cases l with
      | nil => exact node_flowMapping p n true indentless rest
      | cons m ms =>
          rw [valueTokens] at hn ⊢
          simp only [List.length_cons, List.length_append, List.length_nil] at hn
          have hentries := blockEntries_fieldTokens htexts ih (n := n + 1) (by omega) p rest
          rw [List.cons_append, List.append_assoc, node_blockMapping, StateT.run_map]
          rw [List.singleton_append, hentries]
          rfl

/-- A block mapping may be the only document, without a mark. -/
theorem documents_blockMapping {fuel n : ℕ} {ts : List Token} {root : Node} (hn : 2 ≤ n)
    (hroot : (node fuel true false).run { tokens := .blockMapping :: ts } =
      some (root, { tokens := [] })) :
    (documents fuel n true).run { tokens := .blockMapping :: ts } =
      some ([{ root }], { tokens := [] }) := by
  obtain ⟨n, rfl⟩ : ∃ m, n = m + 2 := ⟨n - 2, by omega⟩
  have hend : (documents fuel (n + 1) false).run { tokens := [] } =
      some ([], { tokens := [] }) := by
    simp [documents, peek]
  rw [documents]
  simp [peek, hroot, hend]

end Parsing

/-- **The text of a record is one document**, whose root is the node of the record. -/
theorem parse_render {m : String × Datum} {ms : List (String × Datum)}
    (h : (Datum.record (m :: ms)).Texts Solid) :
    Stream.parse (render (.record (m :: ms))) =
      some [{ root := nodeOf (.record (m :: ms)) }] := by
  have hroot := Parsing.reads_of_texts h { tokens := [] } false false
    (4 * (valueTokens false (.record (m :: ms))).length + 4) [] (by simp) (by omega)
  rw [List.append_nil] at hroot
  have hscan := scan_render h
  obtain ⟨ts, htokens⟩ : ∃ ts, valueTokens false (.record (m :: ms)) = .blockMapping :: ts :=
    ⟨_, by rw [valueTokens]⟩
  rw [htokens] at hroot hscan
  have hdocuments := Parsing.documents_blockMapping
    (by omega : 2 ≤ 4 * (Token.blockMapping :: ts).length + 4) hroot
  rw [Stream.parse, hscan, Option.bind_eq_bind, Option.bind_some]
  simp only [hdocuments, Option.bind_eq_bind, Option.bind_some]
  rfl

end Groundwork.Yaml
