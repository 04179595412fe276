/-
What is said about a blueprint.

A blueprint that is accepted is declared as a whole: each of its nodes is a construct of the graph,
and each of its edges joins the constructs of its ends.  Of any other blueprint the faults of both
passes are reported.  The second pass leaves out the edges that touch a rejected node, so what is
wrong with the other end of such an edge is not reported.

Main definitions:

* `Groundwork.Blueprint.reports` — the faults that are reported of a blueprint.

Main results:

* `Groundwork.Blueprint.toGraph_accepts` — **which blueprints are accepted**, and that nothing of
  them is lost;
* `Groundwork.Blueprint.reports_eq` — what is wrong with a blueprint is reported;
* `Groundwork.Blueprint.reports_complete` — **every bad node is reported, and an edge to an
  undeclared node if and only if it touches no bad node**.
-/
import Groundwork.Proofs.Blueprint.Document
import Groundwork.Proofs.Fault.Collecting

set_option relaxedAutoImplicit false
set_option autoImplicit false

namespace Groundwork

/-! ### Blueprints that are accepted -/

theorem Ident.isNameChar_iff {c : Char} :
    Ident.isNameChar c = true ↔
      c.isAlphanum = true ∨ c ∈ ['_', '.', '/', '-', ':', '[', ']'] := by
  simp only [Ident.isNameChar, Ident.isScopeChar, Ident.isWordChar, Bool.or_eq_true, beq_iff_eq,
    List.mem_cons, List.not_mem_nil, or_false]
  tauto

namespace Blueprint

theorem soundNode_iff {n : String × String} :
    SoundNode n ↔ (∃ k : Kind, k.name = n.2) ∧
      ∀ c ∈ n.1.toList, c.isAlphanum = true ∨ c ∈ ['_', '.', '/', '-', ':', '[', ']'] := by
  simp only [SoundNode, Ident.Legible, ofName?_eq_some_iff, Ident.isNameChar_iff]

theorem sound_iff {b : Blueprint} :
    b.Sound ↔ (∀ n ∈ b.kinds.toList, SoundNode n) ∧
      ∀ e ∈ b.edges, b.kinds.contains e.source = true ∧ b.kinds.contains e.target = true :=
  ⟨fun h => ⟨h.node, h.edge⟩, fun h => ⟨h.1, h.2⟩⟩

section Accepted

variable {b : Blueprint}

/-- The construct under a name has the kind that the node of this name states. -/
theorem Sound.exists_kind (h : b.Sound) {name : String} (hname : b.kinds.contains name = true) :
    ∃ k : Kind, b.kinds.get? name = some k.name ∧ b.named name = .ofKind k name := by
  obtain ⟨kind, hget⟩ := Table.contains_iff.1 hname
  obtain ⟨k, hk⟩ := (h.node _ (Table.get?_eq_some_iff.1 hget)).1
  refine ⟨k, hget.trans (congrArg some (ofName?_eq_some_iff.1 hk).symm), ?_⟩
  rw [named, declared, hget, Option.getD_some, hk, Option.getD_some]

/-- The graph has one construct for each node. -/
theorem order_graph (b : Blueprint) : b.graph.order = b.kinds.size := by
  have hnames : b.constructs.map Construct.name = b.kinds.keys := by
    rw [constructs, List.map_map]
    exact List.map_congr_left fun n _ => name_declared n
  have hconstructs : b.constructs.Nodup :=
    List.Nodup.of_map Construct.name (hnames ▸ b.kinds.keys_nodup)
  have hperm : b.graph.values.Perm b.constructs :=
    (List.perm_ext_iff_of_nodup (List.Nodup.of_map _ b.nodup_names_graph) hconstructs).2 fun c =>
      ConstructGraph.mem_values_laidOut b.apart_constructs
  calc b.graph.order = b.graph.values.length := (List.length_map _).symm
    _ = b.constructs.length := hperm.length_eq
    _ = b.kinds.size := List.length_map _

/-- Each edge of a sound blueprint joins the constructs of its ends. -/
theorem Sound.mem_edges_graph (h : b.Sound) {e : EdgeSpec} (he : e ∈ b.edges) :
    ⟨b.named e.source, b.named e.target, {}⟩ ∈ b.graph.edges := by
  have hends := mem_constructs_of_mem_map_ends h.edge
  rw [graph, ConstructGraph.edges_laidOut b.apart_constructs hends]
  exact List.mem_map.2 ⟨b.ends e, List.mem_map_of_mem (List.mem_eraseDups.2 he), rfl⟩

end Accepted

/-- **A blueprint is accepted if and only if** its kinds are known, its names are made of the
characters that names may have, and its edges join declared nodes.  Then its nodes and edges are all
in the graph, each edge between the constructs that its ends declare, and the graph has no more
constructs. -/
theorem toGraph_accepts (b : Blueprint) :
    ((∃ g, toGraph b = .ok g) ↔
      (∀ n ∈ b.kinds.toList, (∃ k : Kind, k.name = n.2) ∧
        ∀ c ∈ n.1.toList, c.isAlphanum = true ∨ c ∈ ['_', '.', '/', '-', ':', '[', ']']) ∧
      ∀ e ∈ b.edges, b.kinds.contains e.source = true ∧ b.kinds.contains e.target = true) ∧
    ∀ g, toGraph b = .ok g →
      g.order = b.kinds.size ∧
      (∀ n ∈ b.kinds.toList, ∃ k : Kind, k.name = n.2 ∧ .ofKind k n.1 ∈ g.values) ∧
      ∀ e ∈ b.edges, ∃ s t : Kind,
        b.kinds.get? e.source = some s.name ∧ b.kinds.get? e.target = some t.name ∧
          ⟨.ofKind s e.source, .ofKind t e.target, {}⟩ ∈ g.edges := by
  constructor
  · simp only [toGraph_eq_ok_iff, exists_and_left, exists_eq, and_true, sound_iff, soundNode_iff]
  · intro g hg
    obtain ⟨hsound, rfl⟩ := toGraph_eq_ok_iff.1 hg
    refine ⟨b.order_graph, fun n hn => ?_, fun e he => ?_⟩
    · obtain ⟨k, hk⟩ := (hsound.node n hn).1
      have hdeclared : declared n = .ofKind k n.1 := by rw [declared, hk, Option.getD_some]
      refine ⟨k, ofName?_eq_some_iff.1 hk, ?_⟩
      rw [← hdeclared]
      exact (ConstructGraph.mem_values_laidOut b.apart_constructs).2 (List.mem_map_of_mem hn)
    · obtain ⟨hs, ht⟩ := hsound.edge e he
      obtain ⟨s, hsource, hsnamed⟩ := hsound.exists_kind hs
      obtain ⟨t, htarget, htnamed⟩ := hsound.exists_kind ht
      refine ⟨s, t, hsource, htarget, ?_⟩
      rw [← hsnamed, ← htnamed]
      exact hsound.mem_edges_graph he

/-- A node without a name and one whose name looks like a scope and a name, joined both ways. -/
theorem toGraph_accepts_lookalikes :
    let b : Blueprint := {
      kinds := .ofList [("", "expose"), ("a:b/[0]", "kv")]
      edges := [⟨"", "a:b/[0]"⟩, ⟨"a:b/[0]", ""⟩, ⟨"", "a:b/[0]"⟩] }
    ∃ g, toGraph b = .ok g ∧ g.order = 2 ∧
      ∀ e ∈ b.edges, ∃ s t : Kind,
        b.kinds.get? e.source = some s.name ∧ b.kinds.get? e.target = some t.name ∧
          ⟨.ofKind s e.source, .ofKind t e.target, {}⟩ ∈ g.edges := by
  intro b
  have hnodes : b.kinds.toList = [("", "expose"), ("a:b/[0]", "kv")] := by decide
  have hsound : ∀ n ∈ b.kinds.toList, SoundNode n := by
    rw [hnodes, List.forall_mem_cons, List.forall_mem_singleton]
    constructor
    · exact ⟨⟨.gateway, by decide⟩, by decide⟩
    · exact ⟨⟨.store .kv, by decide⟩, by decide⟩
  obtain ⟨g, hg⟩ := (toGraph_accepts b).1.2 ⟨fun n hn => soundNode_iff.1 (hsound n hn), by decide⟩
  obtain ⟨horder, -, hedges⟩ := (toGraph_accepts b).2 g hg
  exact ⟨g, hg, horder, hedges⟩

/-! ### Reports -/

/-- The faults that are reported of a blueprint. -/
def reports (b : Blueprint) : List Fault := (Faults.pushResult {} (toGraph b)).list

/-- A collection without aggregates is told by its result. -/
theorem list_pushResult_result {α : Type} {fs : Faults} (h : ∀ f ∈ fs.list, f.parts = [f]) (a : α) :
    (Faults.pushResult {} (fs.result.map fun _ => a)).list = fs.list := by
  rw [← Faults.partsOf_result fun f hf => Fault.single_iff.2 (h f hf)]
  cases fs.result with
  | ok u => rfl
  | error f => rfl

/-- All that is wrong with a blueprint, apart from the edges that touch bad nodes, is reported. -/
theorem reports_eq (b : Blueprint) : b.reports = b.faults := by
  have hparts : ∀ f ∈ b.faults, f.parts = [f] := by
    intro f hf
    obtain ⟨n, -, hn⟩ | ⟨e, -, he⟩ := mem_faults_iff.1 hf
    · exact parts_nodeFault hn
    · obtain ⟨-, -, node, rfl⟩ := edgeFault_eq_some he
      rfl
  rw [← Raising.faults_raised] at hparts ⊢
  exact list_pushResult_result hparts _

/-- **Every bad node is reported, and an edge to an undeclared node if and only if it touches no bad
node.**  The fault of a node is that of its kind or else that of its name. -/
theorem reports_complete (b : Blueprint) :
    (∀ n ∈ b.kinds.toList, (∀ k : Kind, k.name ≠ n.2) → .unknownKind n.2 ∈ b.reports) ∧
    (∀ n ∈ b.kinds.toList, ∀ k : Kind, k.name = n.2 → ¬ Ident.Legible n.1 →
      .invalidId (Construct.ofKind k n.1).ident.text ("invalid name '" ++ n.1 ++ "'") ∈
        b.reports) ∧
    ∀ e ∈ b.edges, ¬ (b.kinds.contains e.source = true ∧ b.kinds.contains e.target = true) →
      ((∃ node, b.kinds.contains node = false ∧
          .unknownEndpoint e.source e.target node ∈ b.reports) ↔
        b.rejects e.source = false ∧ b.rejects e.target = false) := by
  simp only [reports_eq, mem_faults_iff]
  refine ⟨fun n hn hkind => ?_, fun n hn k hk hname => ?_, fun e he hends => ⟨?_, fun hgood => ?_⟩⟩
  · have hnone : Kind.ofName? n.2 = none :=
      Option.eq_none_iff_forall_ne_some.2 fun k hk => hkind k (ofName?_eq_some_iff.1 hk)
    refine Or.inl ⟨n, hn, ?_⟩
    rw [nodeFault, hnone]
  · refine Or.inl ⟨n, hn, ?_⟩
    rw [nodeFault, ofName?_eq_some_iff.2 hk]
    exact if_neg hname
  · rintro ⟨node, -, ⟨n, -, hn⟩ | ⟨d, -, hd⟩⟩
    · -- the fault of a node names no edge
      obtain hf | ⟨text, reason, hf⟩ := nodeFault_cases hn
      · cases hf
      · cases hf
    · obtain ⟨hsource, htarget, node, hf⟩ := edgeFault_eq_some hd
      obtain ⟨hs, ht, -⟩ := Fault.unknownEndpoint.inj hf
      rw [hs, ht]
      exact ⟨hsource, htarget⟩
  · obtain ⟨node, hnode, hfault⟩ := exists_edgeFault hgood hends
    exact ⟨node, hnode, Or.inr ⟨e, he, hfault⟩⟩

/-- Two bad nodes and a good one, and an edge to an undeclared node from one of either sort. -/
def patchy : Blueprint where
  kinds := .ofList [("a", "lambda"), ("b c", "kv"), ("d", "kv")]
  edges := [⟨"a", "ghost"⟩, ⟨"d", "ghost"⟩]

/-- Only the edge of the good node is reported. -/
theorem reports_complete_patchy :
    .unknownKind "lambda" ∈ patchy.reports ∧
      .invalidId (Construct.ofKind (.store .kv) "b c").ident.text "invalid name 'b c'" ∈
        patchy.reports ∧
      (∃ node, patchy.kinds.contains node = false ∧
        .unknownEndpoint "d" "ghost" node ∈ patchy.reports) ∧
      ¬ ∃ node, patchy.kinds.contains node = false ∧
        .unknownEndpoint "a" "ghost" node ∈ patchy.reports := by
  obtain ⟨hkinds, hnames, hedges⟩ := reports_complete patchy
  have hunknown : ∀ k : Kind, k.name ≠ "lambda" := by
    intro k
    cases k with
    | store k => cases k <;> decide
    | _ => decide
  refine ⟨hkinds ("a", "lambda") (by decide) hunknown,
    hnames ("b c", "kv") (by decide) (.store .kv) rfl (by decide), ?_, ?_⟩
  · exact (hedges ⟨"d", "ghost"⟩ (by decide) (by decide)).2 (by decide)
  · exact fun h => absurd ((hedges ⟨"a", "ghost"⟩ (by decide) (by decide)).1 h) (by decide)

/-- Not every edge to an undeclared node is reported: if its other end is a bad node, it is left
out. -/
theorem not_forall_edges_reported :
    ¬ ∀ (b : Blueprint), ∀ e ∈ b.edges,
      ¬ (b.kinds.contains e.source = true ∧ b.kinds.contains e.target = true) →
        ∃ node, .unknownEndpoint e.source e.target node ∈ b.reports := by
  intro h
  let b : Blueprint := { kinds := .ofList [("a", "lambda")], edges := [⟨"a", "ghost"⟩] }
  have hreports : b.reports = [.unknownKind "lambda"] := rfl
  obtain ⟨node, hnode⟩ := h b ⟨"a", "ghost"⟩ (by decide) (by decide)
  rw [hreports, List.mem_singleton] at hnode
  cases hnode

end Blueprint

end Groundwork
