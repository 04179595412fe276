/-
Blueprints as texts.

A blueprint goes through data and, in YAML, through nodes, on its way to its text and back.  Of the
text nothing is lost if no name has to be escaped or could break a line; names that are read as part
of an identity are of that kind, whatever else they look like.

Main results:

* `Groundwork.Blueprint.decode_encode`, `Groundwork.Blueprint.ofYaml_nodeOf_encode` — a blueprint is
  read out of its data and out of their nodes;
* `Groundwork.Blueprint.parse_render` — a sound blueprint is read out of its text;
* `Groundwork.Blueprint.parseGraph_render_ofGraph` — **what is written can be loaded**, in either
  format.
-/
import Groundwork.Proofs.Blueprint.Document
import Groundwork.Proofs.Json.RoundTrip
import Groundwork.Proofs.Yaml.Nodes

set_option relaxedAutoImplicit false
set_option autoImplicit false

namespace Groundwork

open Yaml (Document Solid nodeOf nodesOf_eq_map entriesOf_eq_map wordNode)

/-! ### Data -/

theorem EdgeSpec.decode_encode (e : EdgeSpec) : decode e.encode = some e := rfl

theorem EdgeSpec.ofYaml_nodeOf_encode (doc : Document) (e : EdgeSpec) :
    ofYaml doc (nodeOf e.encode) = some e := rfl

namespace Blueprint

/-- The kind of a construct as data. -/
def encodeKind (kind : String) : Datum := .record [("kind", .text kind)]

/-- A blueprint is read out of its data. -/
theorem decode_encode (b : Blueprint) : decode b.encode = some b := by
  have hkinds : Datum.tableOf decodeKind (.ofTable encodeKind b.kinds) = some b.kinds := by
    have hentries : (b.kinds.toList.map fun e => (e.1, encodeKind e.2)).mapM
        (fun m => (decodeKind m.2).map (m.1, ·)) = some b.kinds.toList :=
      mapM_map_eq_some fun _ _ => rfl
    rw [Datum.ofTable, Datum.tableOf, hentries, Option.map_some, Table.ofList_toList]
  have hedges : Datum.listOf EdgeSpec.decode (.list (b.edges.map EdgeSpec.encode)) =
      some b.edges :=
    mapM_map_eq_some fun e _ => EdgeSpec.decode_encode e
  have hmembers : b.encode.members memberNames =
      some [some (.ofTable encodeKind b.kinds), some (.list (b.edges.map EdgeSpec.encode))] := rfl
  rw [decode, hmembers]
  simp [Datum.withDefault, hkinds, hedges]

/-- A blueprint is read out of the nodes that its data are written as. -/
theorem ofYaml_nodeOf_encode (b : Blueprint) : ofYaml { root := nodeOf b.encode } = some b := by
  let doc : Document := { root := nodeOf b.encode }
  have hkinds : doc.tableOf (kindOfYaml doc) (nodeOf (.ofTable encodeKind b.kinds)) =
      some b.kinds := by
    have hnodes : nodeOf (.ofTable encodeKind b.kinds) =
        .mapping (b.kinds.toList.map fun e => (wordNode e.1, nodeOf (encodeKind e.2))) := by
      rw [Datum.ofTable, nodeOf, entriesOf_eq_map, List.map_map]
      rfl
    have hread (l : List (Yaml.Node × Yaml.Node)) : doc.entries? (.mapping l) = some l := rfl
    have hentries : (b.kinds.toList.map fun e => (wordNode e.1, nodeOf (encodeKind e.2))).mapM
        (fun e => do return (← doc.text? e.1, ← kindOfYaml doc e.2)) = some b.kinds.toList :=
      mapM_map_eq_some fun _ _ => rfl
    rw [hnodes, Document.tableOf, hread]
    simp only [Option.bind_eq_bind, Option.bind_some] at hentries ⊢
    rw [hentries]
    exact congrArg some (Table.ofList_toList b.kinds)
  have hedges : doc.listOf (EdgeSpec.ofYaml doc) (nodeOf (.list (b.edges.map EdgeSpec.encode))) =
      some b.edges := by
    rw [nodeOf, nodesOf_eq_map, List.map_map]
    exact mapM_map_eq_some fun e _ => EdgeSpec.ofYaml_nodeOf_encode doc e
  have hmembers : doc.members memberNames doc.root =
      some [some (nodeOf (.ofTable encodeKind b.kinds)),
        some (nodeOf (.list (b.edges.map EdgeSpec.encode)))] := rfl
  rw [ofYaml, hmembers]
  simp [hkinds, hedges, doc]

/-! ### Legible names -/

theorem toNat_of_isAlphanum {c : Char} (h : c.isAlphanum = true) :
    0x30 ≤ c.toNat ∧ c.toNat ≤ 0x7a := by
  have hclass : (c.isUpper = true ∨ c.isLower = true) ∨ c.isDigit = true := by
    rw [← Bool.or_eq_true, ← Bool.or_eq_true]
    exact h
  obtain ⟨a, b, ha, hb, hlow, hhigh⟩ :
      ∃ a b : Char, 0x30 ≤ a.toNat ∧ b.toNat ≤ 0x7a ∧ a.val ≤ c.val ∧ c.val ≤ b.val := by
    rcases hclass with (hupper | hlower) | hdigit
    · have hrange := of_decide_eq_true hupper
      exact ⟨'A', 'Z', by decide, by decide, hrange.1, hrange.2⟩
    · have hrange := Bool.and_eq_true_iff.1 hlower
      exact ⟨'a', 'z', by decide, by decide, of_decide_eq_true hrange.1, of_decide_eq_true hrange.2⟩
    · have hrange := Bool.and_eq_true_iff.1 hdigit
      exact ⟨'0', '9', by decide, by decide, of_decide_eq_true hrange.1, of_decide_eq_true hrange.2⟩
  exact ⟨Nat.le_trans ha (UInt32.le_iff_toNat_le.1 hlow),
    Nat.le_trans (UInt32.le_iff_toNat_le.1 hhigh) hb⟩

theorem toNat_of_isNameChar {c : Char} (h : Ident.isNameChar c = true) :
    0x2d ≤ c.toNat ∧ c.toNat ≤ 0x7a := by
  simp only [Ident.isNameChar, Ident.isScopeChar, Ident.isWordChar, Bool.or_eq_true,
    beq_iff_eq] at h
  rcases h with ((((((h | rfl) | rfl) | rfl) | rfl) | rfl) | rfl) | rfl
  · have hrange := toNat_of_isAlphanum h
    exact ⟨Nat.le_trans (by decide) hrange.1, hrange.2⟩
  all_goals decide

/-- A name that may be part of an identity is written without escapes and on one line. -/
theorem solid_of_legible {s : String} (h : Ident.Legible s) : Solid s := by
  intro c hc
  have hrange := toNat_of_isNameChar (h c hc)
  constructor
  · simp only [Yaml.isPrintable, Bool.or_eq_true, Bool.and_eq_true, decide_eq_true_eq]
    omega
  · by_contra hspace
    simp only [Yaml.isSpace, Yaml.isBlank, Yaml.isBreak, Bool.not_eq_false, Bool.or_eq_true,
      decide_eq_true_eq] at hspace
    rcases hspace with (rfl | rfl) | (((rfl | rfl) | rfl) | rfl) | rfl
    all_goals exact absurd hrange (by decide)

theorem legible_kind (k : Kind) : Ident.Legible k.name := by
  cases k with
  | store k => cases k <;> decide
  | _ => decide

/-- Only legible texts are written of a sound blueprint. -/
theorem Sound.texts_encode {b : Blueprint} (h : b.Sound) : b.encode.Texts Ident.Legible := by
  have hname {name : String} (hmem : b.kinds.contains name = true) : Ident.Legible name := by
    obtain ⟨kind, hkind⟩ := Table.contains_iff_exists_mem.1 hmem
    exact (h.node _ hkind).2
  have hkinds : (Datum.ofTable encodeKind b.kinds).Texts Ident.Legible := by
    refine .record ?_ ?_ <;> rw [List.forall_mem_map] <;> intro n hn
    · exact (h.node n hn).2
    · obtain ⟨k, hk⟩ := (h.node n hn).1
      have hkind : Ident.Legible n.2 := ofName?_eq_some_iff.1 hk ▸ legible_kind k
      exact .cons_record (by decide) (.text hkind) .nil_record
  have hedges : (Datum.list (b.edges.map EdgeSpec.encode)).Texts Ident.Legible := by
    refine .list ?_
    rw [List.forall_mem_map]
    intro e he
    obtain ⟨hsource, htarget⟩ := h.edge e he
    exact .cons_record (by decide) (.text (hname hsource))
      (.cons_record (by decide) (.text (hname htarget)) .nil_record)
  exact .cons_record (by decide) hkinds (.cons_record (by decide) hedges .nil_record)

/-! ### Texts -/

/-- A sound blueprint is read out of its text. -/
theorem parse_render {b : Blueprint} (h : b.Sound) (format : BlueprintFormat) :
    parse (render b format) format = .ok b := by
  have htexts := h.texts_encode
  cases format with
  | yaml =>
      have hparse : Yaml.Stream.parse (render b .yaml) = some [{ root := nodeOf b.encode }] :=
        Yaml.parse_render (htexts.imp fun _ => solid_of_legible)
      rw [parse, hparse]
      simp only [ofYaml_nodeOf_encode]
  | json =>
      rw [parse, render, Json.read_render htexts, Option.bind_some, decode_encode]

/-- **What is written can be loaded**: the text of a declared graph, in either format, declares the
same graph. -/
theorem parseGraph_render_ofGraph {b : Blueprint} {g : ConstructGraph} (h : toGraph b = .ok g)
    (format : BlueprintFormat) : parseGraph (render (ofGraph g) format) format = .ok g := by
  obtain ⟨hsound, rfl⟩ := toGraph_eq_ok_iff.1 h
  obtain ⟨hsound', hgraph⟩ := sound_ofGraph_graph hsound
  rw [parseGraph, parse_render hsound' format]
  exact toGraph_eq_ok_iff.2 ⟨hsound', hgraph.symm⟩

/-- Names that look like nothing, like an indicator and like no value. -/
theorem parseGraph_render_ofGraph_lookalikes :
    let b : Blueprint := {
      kinds := .ofList [("", "expose"), ("null", "execution_unit"), ("-", "execution_unit")]
      edges := [⟨"", "null"⟩, ⟨"null", "-"⟩, ⟨"", "null"⟩] }
    toGraph b = .ok b.graph ∧
      parseGraph (render (ofGraph b.graph) .yaml) .yaml = .ok b.graph ∧
      parseGraph (render (ofGraph b.graph) .json) .json = .ok b.graph := by
  intro b
  have hsound : b.Sound := by
    have hnodes : b.kinds.toList =
        [("", "expose"), ("-", "execution_unit"), ("null", "execution_unit")] := by decide
    refine ⟨?_, by decide⟩
    rw [hnodes, List.forall_mem_cons, List.forall_mem_cons, List.forall_mem_singleton]
    refine ⟨?_, ?_, ?_⟩
    · exact ⟨⟨.gateway, by decide⟩, by decide⟩
    · exact ⟨⟨.executionUnit, by decide⟩, by decide⟩
    · exact ⟨⟨.executionUnit, by decide⟩, by decide⟩
  have hok : toGraph b = .ok b.graph := toGraph_eq_ok_iff.2 ⟨hsound, rfl⟩
  exact ⟨hok, parseGraph_render_ofGraph hok .yaml, parseGraph_render_ofGraph hok .json⟩

end Blueprint

end Groundwork
