/-
The calls of a configuration.

A configuration goes through the dependencies in the order of their listing.  Its behaviours never
see the graph, but they may change any resource, and with it the types by which the entry for a
later dependency is found.  What a configuration calls and reports is therefore told by the
resources as they are when each dependency is reached: each dependency finds them as the one before
has left them, whether its behaviour failed or not.

Main definitions:

* `Groundwork.KnowledgeBase.Stop` — a dependency, as a configuration comes to it, with the call that
  is made for it and what is reported about it;
* `Groundwork.KnowledgeBase.Round` — the dependencies one after another.

Main results:

* `Groundwork.KnowledgeBase.Stop.sound` — what is done for one dependency;
* `Groundwork.KnowledgeBase.Round.sound` — what is done for dependencies in turn;
* `Groundwork.KnowledgeBase.configure_calls` — **the calls and the reports of a configuration**.
-/
import Groundwork.Proofs.Fault.Collecting
import Groundwork.Proofs.Knowledge.Refusal

set_option relaxedAutoImplicit false
set_option autoImplicit false

namespace Groundwork.KnowledgeBase

variable {kb : KnowledgeBase} {defaults : EdgeData}

/-! ### One dependency -/

/-- A dependency, as a configuration comes to it. -/
structure Stop where
  /-- The dependency. -/
  edge : Digraph.Edge Handle Payload
  /-- The resources when the dependency is reached. -/
  before : Store
  /-- The resources when the dependency is left. -/
  after : Store

namespace Stop

/-- The types of the ends, as they are when the dependency is reached. -/
def link (v : Stop) : Link :=
  ⟨(v.before.ident v.edge.source).tag, (v.before.ident v.edge.target).tag⟩

/-- The behaviour that adjusts the ends, if there is an entry for their types and it has one. -/
def behaviour? (kb : KnowledgeBase) (v : Stop) : Option Configuration :=
  (kb.entry? v.link).bind LinkEntry.configure

/-- The call for the dependency, if there is a behaviour.  It gets the ends of the dependency, and
its payload or else the defaults. -/
def call? (kb : KnowledgeBase) (defaults : EdgeData) (v : Stop) : Option Call :=
  (v.behaviour? kb).map fun _ => ⟨v.edge.source, v.edge.target, dataFor defaults v.edge⟩

/-- The entry for the call in the journal, with the resources that the behaviour finds. -/
def event? (kb : KnowledgeBase) (defaults : EdgeData) (v : Stop) : Option Event :=
  (v.call? kb defaults).map fun call => .called .configure call v.before

/-- What the behaviour makes of the resources, and whether it fails. -/
def outcome (kb : KnowledgeBase) (defaults : EdgeData) (v : Stop) : Store × Except Cause Unit :=
  match v.behaviour? kb with
  | none => (v.before, .ok ())
  | some behaviour => behaviour v.edge.source v.edge.target (dataFor defaults v.edge) v.before

/-- What is reported about the dependency: first a payload of another shape, whether there is a
behaviour or not, and then the failure of the behaviour. -/
def faults (kb : KnowledgeBase) (defaults : EdgeData) (v : Stop) : List Fault :=
  shapeFaults { store := v.before } v.edge ++
    match (v.outcome kb defaults).2 with
    | .ok () => []
    | .error cause =>
      [.configuration (v.before.key v.edge.source) (v.before.key v.edge.target) cause]

/-- No report is an aggregate, whatever the behaviour gives as its cause. -/
theorem single_of_mem_faults {v : Stop} {f : Fault} (hf : f ∈ v.faults kb defaults) :
    f.Single := by
  rcases List.mem_append.1 hf with hf | hf
  · unfold shapeFaults at hf
    split at hf
    · rw [List.mem_singleton.1 hf]
      nofun
    · exact absurd hf List.not_mem_nil
  · split at hf
    · exact absurd hf List.not_mem_nil
    · rw [List.mem_singleton.1 hf]
      nofun

/-- One dependency. -/
theorem sound (v : Stop) {p : Pass} (hp : p.site.store = v.before) :
    kb.configureEdge defaults p v.edge =
      { site := { p.site with
          store := (v.outcome kb defaults).1
          journal := p.site.journal ++ (v.event? kb defaults).toList }
        faults := ⟨p.faults.list ++ v.faults kb defaults⟩
        calls := p.calls ++ (v.call? kb defaults).toList } := by
  have hshape : shapeFaults p.site v.edge = shapeFaults { store := v.before } v.edge := by
    rw [← hp]
    rfl
  rw [configureEdge, dataOf_eq, faults, event?, call?, outcome, behaviour?, link, hshape, ← hp]
  dsimp only
  cases (kb.entry? ⟨(p.site.store.ident v.edge.source).tag,
      (p.site.store.ident v.edge.target).tag⟩).bind LinkEntry.configure with
  | none => simp only [Pass.report, Option.map_none, Option.toList_none, List.append_nil]
  | some behaviour =>
      -- the behaviour finds the resources as they were, since a report and a note leave them alone
      simp only [Pass.note, Pass.report]
      obtain ⟨after, result⟩ :=
        behaviour v.edge.source v.edge.target (dataFor defaults v.edge) p.site.store
      cases result with
      | ok _ => simp only [Option.map_some, Option.toList_some, List.append_nil]
      | error cause =>
          simp only [Option.map_some, Option.toList_some]
          rw [Pass.fail, Faults.push, ← List.append_assoc]
          rfl

end Stop

/-! ### All dependencies -/

/-- Dependencies one after another.  The round starts with some resources, and each dependency is
reached where the last one was left. -/
inductive Round (kb : KnowledgeBase) (defaults : EdgeData) :
    Store → List (Digraph.Edge Handle Payload) → List Stop → Store → Prop
  /-- There is no dependency left. -/
  | nil (s : Store) : Round kb defaults s [] [] s
  /-- One more dependency. -/
  | cons {v : Stop} {rest : List (Digraph.Edge Handle Payload)} {stops : List Stop} {t : Store} :
      v.after = (v.outcome kb defaults).1 → Round kb defaults v.after rest stops t →
      Round kb defaults v.before (v.edge :: rest) (v :: stops) t

namespace Round

/-- There is a round from everywhere. -/
theorem exists_of_edges (kb : KnowledgeBase) (defaults : EdgeData) (s : Store)
    (l : List (Digraph.Edge Handle Payload)) : ∃ stops t, Round kb defaults s l stops t := by
  induction l generalizing s with
  | nil => exact ⟨[], s, Round.nil s⟩
  | cons e rest ih =>
      let v : Stop := ⟨e, s, (Stop.outcome kb defaults ⟨e, s, s⟩).1⟩
      obtain ⟨stops, t, hround⟩ := ih v.after
      exact ⟨v :: stops, t, Round.cons (v := v) rfl hround⟩

/-- Dependencies are configured along the round. -/
theorem sound {s t : Store} {l : List (Digraph.Edge Handle Payload)} {stops : List Stop}
    (h : Round kb defaults s l stops t) {p : Pass} (hp : p.site.store = s) :
    l.foldl (kb.configureEdge defaults) p =
      { site := { p.site with
          store := t
          journal := p.site.journal ++ stops.filterMap (Stop.event? kb defaults) }
        faults := ⟨p.faults.list ++ stops.flatMap (Stop.faults kb defaults)⟩
        calls := p.calls ++ stops.filterMap (Stop.call? kb defaults) } := by
  induction h generalizing p with
  | nil s =>
      rw [← hp]
      simp only [List.foldl_nil, List.filterMap_nil, List.flatMap_nil, List.append_nil]
  | @cons v rest stops t hv hround ih =>
      rw [List.foldl_cons, v.sound hp, ih hv.symm]
      simp only [List.filterMap_eq_flatMap_toList, List.flatMap_cons, List.append_assoc]

/-- The first behaviour changes the type of its target and fails.  The second dependency is looked
up under the new type, and its behaviour is called. -/
example :
    let part (kind : String) : Resource := { ident := { provider := "test", kind, scope := "z" } }
    let turn : Configuration := fun _ target _ store =>
      (store.modify target fun _ => part "d", .error (.note "turned"))
    let kb : KnowledgeBase :=
      { entries := Table.ofList [(⟨⟨"test:a"⟩, ⟨"test:b"⟩⟩, { configure := some turn }),
          (⟨⟨"test:d"⟩, ⟨"test:c"⟩⟩, { configure := some fun _ _ _ store => (store, .ok ()) })] }
    let start : Pass := { site := { store := ⟨#[part "a", part "b", part "c"]⟩ } }
    let p :=
      [⟨⟨0⟩, ⟨1⟩, {}⟩, ⟨⟨1⟩, ⟨2⟩, { data := some .foreign }⟩].foldl (kb.configureEdge {}) start
    p.calls = [⟨⟨0⟩, ⟨1⟩, {}⟩, ⟨⟨1⟩, ⟨2⟩, {}⟩] ∧
      p.faults.list.map Fault.message =
        ["configuring test:a:z -> test:b:z: turned",
          "edge properties for edge test:d:z -> test:c:z do not satisfy edge data format"] := by
  decide +kernel

/-- The round goes through the dependencies in their order. -/
theorem map_edge {s t : Store} {l : List (Digraph.Edge Handle Payload)} {stops : List Stop}
    (h : Round kb defaults s l stops t) : stops.map Stop.edge = l := by
  induction h with
  | nil s => rfl
  | cons _ _ ih => exact congrArg _ ih

end Round

/-- **The calls and the reports of a configuration.**  They are those of a round through the
dependencies in the order of their listing.  For each of them whose ends have types with a
behaviour, when it is reached, there is one call with its own ends and its payload or the defaults,
and there are no other calls; a payload of another shape is reported before the failure of the call,
and no failure ends the round.  The graph stays as it is. -/
theorem configure_calls (kb : KnowledgeBase) (defaults : EdgeData) (s : Site) :
    ∃ stops t, Round kb defaults s.store s.dependencies stops t ∧
      stops.map Stop.edge = s.dependencies ∧
      (kb.configurePass defaults s).calls = stops.filterMap (Stop.call? kb defaults) ∧
      (kb.configure defaults s).1 =
        { s with
          store := t
          journal := s.journal ++ stops.filterMap (Stop.event? kb defaults) } ∧
      (kb.configure defaults s).2 = (⟨stops.flatMap (Stop.faults kb defaults)⟩ : Faults).result ∧
      Faults.partsOf (kb.configure defaults s).2 = stops.flatMap (Stop.faults kb defaults) := by
  obtain ⟨stops, t, hround⟩ := Round.exists_of_edges kb defaults s.store s.dependencies
  have hpass := hround.sound (p := { site := s }) rfl
  have hsingle : ∀ f ∈ stops.flatMap (Stop.faults kb defaults), f.Single := by
    intro f hf
    obtain ⟨v, -, hv⟩ := List.mem_flatMap.1 hf
    exact Stop.single_of_mem_faults hv
  refine ⟨stops, t, hround, hround.map_edge, ?_, ?_, ?_, ?_⟩
  · rw [configurePass, hpass]
    exact List.nil_append _
  · rw [configure, configurePass, hpass]
  · rw [configure, configurePass, hpass, List.nil_append]
  · rw [configure, configurePass, hpass, List.nil_append]
    exact Faults.partsOf_result hsingle

end Groundwork.KnowledgeBase
