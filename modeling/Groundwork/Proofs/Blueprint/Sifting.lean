/-
What is wrong with a blueprint.

A blueprint is raised in two passes, over its nodes and over its edges, and either of them goes on
after a fault.  The first pass declares the sound nodes and rejects the others.  The second one
leaves out the edges that touch a rejected node, and reports the others that have an end which is
not declared.

Main definitions:

* `Groundwork.Blueprint.Sound` — nodes of known kinds with legible names, and edges between nodes;
* `Groundwork.Blueprint.nodeFault`, `Groundwork.Blueprint.edgeFault` — what is wrong with a node,
  and with an edge;
* `Groundwork.Blueprint.Raising.Sifted` — the sound nodes are told from the others.

Main results:

* `Groundwork.Blueprint.construct_eq` — what becomes of a node;
* `Groundwork.Blueprint.Raising.Sifted.addNode`, `Groundwork.Blueprint.Raising.Sifted.addEdge` —
  what one more node and one more edge do;
* `Groundwork.Blueprint.Raising.faults_raised` — **the faults of the nodes and then those of the
  edges are reported**;
* `Groundwork.Blueprint.faults_eq_nil_iff` — nothing is wrong with the sound blueprints only.
-/
import Groundwork.Blueprint.Graph
import Groundwork.Proofs.Construct.Filing

set_option relaxedAutoImplicit false
set_option autoImplicit false

namespace Groundwork

/-! ### Legible names -/

/-- The text is made of the characters that names may have. -/
def Ident.Legible (s : String) : Prop := ∀ c ∈ s.toList, Ident.isNameChar c = true

instance (s : String) : Decidable (Ident.Legible s) :=
  decidable_of_iff (s.toList.all Ident.isNameChar = true) List.all_eq_true

namespace Construct

/-- Only the name of a construct can be misspelled. -/
theorem problems_ident (c : Construct) :
    c.ident.problems =
      if Ident.Legible c.name then [] else ["invalid name '" ++ c.name ++ "'"] := by
  have hprovider : (c.ident.provider.isEmpty || !c.ident.provider.toList.all Ident.isWordChar) =
      false := by
    change (Ident.abstractProvider.isEmpty || !Ident.abstractProvider.toList.all _) = false
    decide
  have hkind : (!c.ident.kind.toList.all Ident.isWordChar) = false := by
    change (!c.kind.name.toList.all Ident.isWordChar) = false
    cases c.kind with
    | store k => cases k <;> decide
    | _ => decide
  have hscope : (!c.ident.scope.toList.all Ident.isScopeChar) = false := rfl
  have hname : (!c.name.toList.all Ident.isNameChar) = true ↔ ¬ Ident.Legible c.name := by
    rw [Bool.not_eq_true', ← Bool.not_eq_true, List.all_eq_true]
    rfl
  rw [Ident.problems, hprovider, hkind, hscope]
  change (if (!c.name.toList.all Ident.isNameChar) = true then _ else _) = _
  by_cases h : Ident.Legible c.name
  · rw [if_neg (mt hname.1 (not_not_intro h)), if_pos h]
  · rw [if_pos (hname.2 h), if_neg h]
    rfl

theorem wellSpelled_ident_iff {c : Construct} : c.ident.WellSpelled ↔ Ident.Legible c.name := by
  rw [← Ident.problems_eq_nil_iff, problems_ident]
  simp

/-- The text of a construct is cut into the parts of its identity again. -/
theorem parse_text_ident (c : Construct) :
    Ident.parse c.ident.text = c.ident.validate c.ident.text := by
  have hne : c.ident ≠ {} := by
    intro h
    have hprovider : Ident.abstractProvider = "" := congrArg Ident.provider h
    exact absurd hprovider (by decide)
  have hcut := Ident.cut_text c.separable_ident
  obtain ⟨-, hname, heq⟩ | ⟨-, -, -, heq⟩ | ⟨hscope, -⟩ | ⟨-, -, heq⟩ := Ident.segments_cases hne
  · rw [heq] at hcut
    rw [Ident.parse_of_cut_two hcut]
    refine congrArg (Ident.validate · _) (Ident.ext_parts ?_)
    rw [Ident.parts, Ident.parts, hname]
    rfl
  · rw [heq] at hcut
    exact Ident.parse_of_cut_three hcut
  · exact absurd rfl hscope
  · rw [heq] at hcut
    exact Ident.parse_of_cut_four hcut

/-- The text of a construct is an identity if and only if its name is legible. -/
theorem parse_text_ident_eq_ok_iff {c : Construct} {i : Ident} :
    Ident.parse c.ident.text = .ok i ↔ Ident.Legible c.name ∧ i = c.ident := by
  rw [parse_text_ident, Ident.validate_eq_ok_iff, wellSpelled_ident_iff]

end Construct

namespace Blueprint

/-! ### Nodes -/

/-- The construct that a node declares if there is such a kind. -/
def declared (node : String × String) : Construct :=
  .ofKind ((Kind.ofName? node.2).getD default) node.1

/-- The kind is known and the name is legible. -/
def SoundNode (node : String × String) : Prop :=
  (∃ k, Kind.ofName? node.2 = some k) ∧ Ident.Legible node.1

theorem name_declared (node : String × String) : (declared node).name = node.1 :=
  Construct.name_ofKind _ _

theorem ofName?_eq_some_iff {s : String} {k : Kind} : Kind.ofName? s = some k ↔ k.name = s := by
  constructor
  · intro h
    exact beq_iff_eq.1 (List.find?_some (p := fun k : Kind => k.name == s) h)
  · rintro rfl
    exact Kind.ofName?_name k

/-- A known kind is written back as it was read. -/
theorem kind_declared {node : String × String} (h : ∃ k, Kind.ofName? node.2 = some k) :
    (declared node).kind.name = node.2 := by
  obtain ⟨k, hk⟩ := h
  rw [declared, hk, Option.getD_some, Construct.kind_ofKind]
  exact ofName?_eq_some_iff.1 hk

instance (node : String × String) : Decidable (SoundNode node) :=
  decidable_of_iff ((Kind.ofName? node.2).isSome = true ∧ Ident.Legible node.1)
    (and_congr_left' Option.isSome_iff_exists)

/-- What is wrong with a node: its kind, or else its name. -/
def nodeFault (node : String × String) : Option Fault :=
  match Kind.ofName? node.2 with
  | none => some (.unknownKind node.2)
  | some k =>
    if Ident.Legible node.1 then none
    else some (.invalidId (Construct.ofKind k node.1).ident.text
      ("invalid name '" ++ node.1 ++ "'"))

/-- A node is the construct that it declares, or its fault is reported. -/
theorem construct_eq (node : String × String) :
    construct node.1 node.2 =
      match nodeFault node with
      | none => .ok (declared node)
      | some f => .error f := by
  rw [construct, Kind.parse, nodeFault, declared]
  cases Kind.ofName? node.2 with
  | none => rfl
  | some k =>
      change (Ident.parse (Construct.ofKind k node.1).ident.text >>= fun _ =>
        Except.ok (Construct.ofKind k node.1)) = _
      rw [Construct.parse_text_ident, Ident.validate, Construct.problems_ident,
        Construct.name_ofKind]
      by_cases h : Ident.Legible node.1
      · simp only [if_pos h]
        rfl
      · simp only [if_neg h]
        rfl

theorem nodeFault_eq_none_iff {node : String × String} :
    nodeFault node = none ↔ SoundNode node := by
  rw [nodeFault, SoundNode]
  cases Kind.ofName? node.2 <;> simp

theorem nodeFault_cases {node : String × String} {f : Fault} (h : nodeFault node = some f) :
    f = .unknownKind node.2 ∨ ∃ text reason, f = .invalidId text reason := by
  rw [nodeFault] at h
  split at h
  case h_1 => exact Or.inl (Option.some_inj.1 h).symm
  case h_2 =>
      split_ifs at h
      exact Or.inr ⟨_, _, (Option.some_inj.1 h).symm⟩

/-- The fault of a node is not an aggregate. -/
theorem parts_nodeFault {node : String × String} {f : Fault} (h : nodeFault node = some f) :
    f.parts = [f] := by
  obtain rfl | ⟨text, reason, rfl⟩ := nodeFault_cases h
  · rfl
  · rfl

/-- A node is a construct if and only if it is sound. -/
theorem construct_eq_ok_iff {node : String × String} {c : Construct} :
    construct node.1 node.2 = .ok c ↔ SoundNode node ∧ c = declared node := by
  rw [construct_eq, ← nodeFault_eq_none_iff]
  cases nodeFault node <;> simp [eq_comm]

/-- Nodes of known kinds with legible names, and edges between nodes. -/
structure Sound (b : Blueprint) : Prop where
  node : ∀ n ∈ b.kinds.toList, SoundNode n
  edge : ∀ e ∈ b.edges, b.kinds.contains e.source = true ∧ b.kinds.contains e.target = true

/-! ### The pass over the nodes -/

namespace Raising

/-- The nodes of a list are told apart: the sound ones are declared, and the others are rejected. -/
structure Sifted (r : Raising) (nodes : List (String × String)) : Prop where
  declared : ∀ x, r.idents.contains x = true ↔ ∃ n ∈ nodes, n.1 = x ∧ SoundNode n
  rejected : ∀ x, x ∈ r.rejected ↔ ∃ n ∈ nodes, n.1 = x ∧ ¬ SoundNode n

/-- **One more node** is declared or rejected. -/
theorem Sifted.addNode {r : Raising} {nodes : List (String × String)} (h : r.Sifted nodes)
    (n : String × String) :
    (r.addNode n.1 n.2).Sifted (nodes ++ [n]) ∧
      (r.addNode n.1 n.2).faults.list = r.faults.list ++ (nodeFault n).toList := by
  have hexists (P : String × String → Prop) (x : String) :
      (∃ m ∈ nodes ++ [n], m.1 = x ∧ P m) ↔ (∃ m ∈ nodes, m.1 = x ∧ P m) ∨ n.1 = x ∧ P n := by
    simp [or_and_right, exists_or]
  rw [Raising.addNode, construct_eq]
  cases hfault : nodeFault n with
  | none =>
      have hsound : SoundNode n := nodeFault_eq_none_iff.1 hfault
      refine ⟨⟨fun x => ?_, fun x => ?_⟩, (List.append_nil _).symm⟩
      · rw [Table.contains_insert, Bool.or_eq_true, decide_eq_true_iff, hexists, h.declared,
          or_comm]
        exact or_congr_right (and_iff_left hsound).symm
      · rw [hexists, or_iff_left fun hx => hx.2 hsound]
        exact h.rejected x
  | some f =>
      have hbad : ¬ SoundNode n := by
        rw [← nodeFault_eq_none_iff, hfault]
        exact Option.some_ne_none f
      refine ⟨⟨fun x => ?_, fun x => ?_⟩, congrArg (r.faults.list ++ ·) (parts_nodeFault hfault)⟩
      · rw [hexists, or_iff_left fun hx => hbad hx.2]
        exact h.declared x
      · rw [hexists, List.mem_append, List.mem_singleton, h.rejected, eq_comm (a := x)]
        exact or_congr_right (and_iff_left hbad).symm

/-- After the first pass the nodes are told apart, and the faults are those of the bad ones. -/
theorem sifted_addNodes (nodes : List (String × String)) :
    (nodes.foldl (fun r n => r.addNode n.1 n.2) ({} : Raising)).Sifted nodes ∧
      (nodes.foldl (fun r n => r.addNode n.1 n.2) ({} : Raising)).faults.list =
        nodes.filterMap nodeFault := by
  induction nodes using List.reverseRecOn with
  | nil => exact ⟨⟨fun x => by simp [Table.contains_eq_isSome], fun x => by simp⟩, rfl⟩
  | append_singleton nodes n ih =>
      have hstep := ih.1.addNode n
      rw [ih.2] at hstep
      rw [List.foldl_append, List.filterMap_append]
      exact hstep

end Raising

/-! ### The pass over the edges -/

/-- Whether a name is that of a bad node. -/
def rejects (b : Blueprint) (name : String) : Bool :=
  (b.kinds.get? name).any fun kind => ¬ SoundNode (name, kind)

theorem rejects_eq_false {b : Blueprint} (h : ∀ n ∈ b.kinds.toList, SoundNode n) (name : String) :
    b.rejects name = false := by
  rw [rejects, Option.any_eq_false]
  intro kind hkind
  simpa using h _ (Table.get?_eq_some_iff.1 hkind)

/-- What is wrong with an edge that touches no bad node: an end that is not declared. -/
def edgeFault (b : Blueprint) (e : EdgeSpec) : Option Fault :=
  if b.rejects e.source || b.rejects e.target then none
  else if b.kinds.contains e.source = false then
    some (.unknownEndpoint e.source e.target e.source)
  else if b.kinds.contains e.target = false then
    some (.unknownEndpoint e.source e.target e.target)
  else none

/-- An edge is faulty only apart from bad nodes, and the fault names it. -/
theorem edgeFault_eq_some {b : Blueprint} {e : EdgeSpec} {f : Fault} (h : b.edgeFault e = some f) :
    b.rejects e.source = false ∧ b.rejects e.target = false ∧
      ∃ node, f = .unknownEndpoint e.source e.target node := by
  rw [edgeFault] at h
  split at h
  case isTrue => cases h
  case isFalse hbad =>
      rw [Bool.not_eq_true, Bool.or_eq_false_iff] at hbad
      refine ⟨hbad.1, hbad.2, ?_⟩
      split_ifs at h
      · exact ⟨e.source, (Option.some_inj.1 h).symm⟩
      · exact ⟨e.target, (Option.some_inj.1 h).symm⟩

/-- Apart from bad nodes, an edge with an undeclared end is faulty. -/
theorem exists_edgeFault {b : Blueprint} {e : EdgeSpec}
    (hgood : b.rejects e.source = false ∧ b.rejects e.target = false)
    (hends : ¬ (b.kinds.contains e.source = true ∧ b.kinds.contains e.target = true)) :
    ∃ node, b.kinds.contains node = false ∧
      b.edgeFault e = some (.unknownEndpoint e.source e.target node) := by
  rw [edgeFault, hgood.1, hgood.2, Bool.or_self, if_neg Bool.false_ne_true]
  by_cases hs : b.kinds.contains e.source = false
  · exact ⟨e.source, hs, if_pos hs⟩
  · have ht : b.kinds.contains e.target = false :=
      Bool.eq_false_iff.2 fun ht => hends ⟨Bool.not_eq_false _ ▸ hs, ht⟩
    exact ⟨e.target, ht, by rw [if_neg hs, if_pos ht]⟩

/-- What is wrong with a blueprint, apart from the edges that touch bad nodes. -/
def faults (b : Blueprint) : List Fault :=
  b.kinds.toList.filterMap nodeFault ++ b.edges.filterMap b.edgeFault

theorem mem_faults_iff {b : Blueprint} {f : Fault} :
    f ∈ b.faults ↔ (∃ n ∈ b.kinds.toList, nodeFault n = some f) ∨
      ∃ e ∈ b.edges, b.edgeFault e = some f := by
  rw [faults, List.mem_append, List.mem_filterMap, List.mem_filterMap]

/-- Nothing is wrong with the sound blueprints only. -/
theorem faults_eq_nil_iff {b : Blueprint} : b.faults = [] ↔ b.Sound := by
  rw [faults, List.append_eq_nil_iff, List.filterMap_eq_nil_iff, List.filterMap_eq_nil_iff]
  constructor
  · rintro ⟨hnodes, hedges⟩
    have hsound : ∀ n ∈ b.kinds.toList, SoundNode n := fun n hn =>
      nodeFault_eq_none_iff.1 (hnodes n hn)
    refine ⟨hsound, fun e he => ?_⟩
    by_contra hends
    have hgood := rejects_eq_false hsound
    obtain ⟨node, -, hfault⟩ := exists_edgeFault ⟨hgood e.source, hgood e.target⟩ hends
    rw [hedges e he] at hfault
    cases hfault
  · intro h
    refine ⟨fun n hn => nodeFault_eq_none_iff.2 (h.node n hn), fun e he => ?_⟩
    simp [edgeFault, h.edge e he]

namespace Raising

variable {b : Blueprint} {r : Raising}

theorem Sifted.contains_rejected (h : r.Sifted b.kinds.toList) (x : String) :
    r.rejected.contains x = b.rejects x := by
  rw [Bool.eq_iff_iff, List.contains_iff_mem, h.rejected, rejects, Option.any_eq_true]
  constructor
  · rintro ⟨n, hn, rfl, hbad⟩
    exact ⟨n.2, Table.get?_eq_some_iff.2 hn, decide_eq_true hbad⟩
  · rintro ⟨kind, hkind, hbad⟩
    exact ⟨(x, kind), Table.get?_eq_some_iff.1 hkind, rfl, of_decide_eq_true hbad⟩

/-- Apart from the bad nodes, the identities are those of the declared names. -/
theorem Sifted.isSome_get? (h : r.Sifted b.kinds.toList) {x : String} (hx : b.rejects x = false) :
    (r.idents.get? x).isSome = b.kinds.contains x := by
  rw [← Table.contains_eq_isSome, Bool.eq_iff_iff, h.declared, Table.contains_iff]
  constructor
  · rintro ⟨n, hn, rfl, -⟩
    exact ⟨n.2, Table.get?_eq_some_iff.2 hn⟩
  · rintro ⟨kind, hkind⟩
    have hgood : SoundNode (x, kind) := by simpa [rejects, hkind] using hx
    exact ⟨(x, kind), Table.get?_eq_some_iff.1 hkind, rfl, hgood⟩

/-- **One more edge** leaves the nodes as they are told apart, and its fault is reported. -/
theorem Sifted.addEdge (h : r.Sifted b.kinds.toList) (e : EdgeSpec) :
    (r.addEdge e).Sifted b.kinds.toList ∧
      (r.addEdge e).faults.list = r.faults.list ++ (b.edgeFault e).toList := by
  rw [Raising.addEdge, edgeFault, h.contains_rejected, h.contains_rejected]
  by_cases hbad : (b.rejects e.source || b.rejects e.target) = true
  · rw [if_pos hbad, if_pos hbad]
    exact ⟨h, (List.append_nil _).symm⟩
  · rw [if_neg hbad, if_neg hbad]
    rw [Bool.not_eq_true, Bool.or_eq_false_iff] at hbad
    rw [← h.isSome_get? hbad.1, ← h.isSome_get? hbad.2, endpoint, endpoint]
    cases r.idents.get? e.source with
    | none => exact ⟨⟨h.declared, h.rejected⟩, rfl⟩
    | some s =>
        cases r.idents.get? e.target with
        | none => exact ⟨⟨h.declared, h.rejected⟩, rfl⟩
        | some t => exact ⟨⟨h.declared, h.rejected⟩, (List.append_nil _).symm⟩

/-- The second pass adds the faults of the edges. -/
theorem Sifted.faults_addEdges (h : r.Sifted b.kinds.toList) (edges : List EdgeSpec) :
    (edges.foldl Raising.addEdge r).faults.list =
      r.faults.list ++ edges.filterMap b.edgeFault := by
  induction edges generalizing r with
  | nil => exact (List.append_nil _).symm
  | cons e edges ih =>
      obtain ⟨hsifted, hfaults⟩ := h.addEdge e
      have hfilter : (e :: edges).filterMap b.edgeFault =
          (b.edgeFault e).toList ++ edges.filterMap b.edgeFault := by
        rw [← List.singleton_append, List.filterMap_append]
        rfl
      rw [List.foldl_cons, ih hsifted, hfaults, hfilter, List.append_assoc]

/-- **The faults of the nodes and then those of the edges are reported.** -/
theorem faults_raised (b : Blueprint) :
    (b.edges.foldl Raising.addEdge
      (b.kinds.toList.foldl (fun r n => r.addNode n.1 n.2) {})).faults.list = b.faults := by
  obtain ⟨hsifted, hnodes⟩ := sifted_addNodes b.kinds.toList
  rw [hsifted.faults_addEdges, hnodes]
  rfl

end Raising

end Blueprint

end Groundwork
