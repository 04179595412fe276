/-
What an expansion can lose.

An expansion removes a dependency before it walks along the chain that is to take its place, and it
goes on after a failure.  A link that fails therefore leaves a gap in the chain, and the target of
the dependency may lie downstream of its source no longer.  Nothing else can be lost: as long as
behaviours remove nothing, the dependency itself is the only one that goes.

Main definitions:

* `Groundwork.KnowledgeBase.Additive` — behaviours that remove nothing.

Main results:

* `Groundwork.KnowledgeBase.Additive.adj_taken` — every other dependency stays;
* `Groundwork.KnowledgeBase.expandEdge_loses_direct_only` — **what stays downstream**;
* `Groundwork.KnowledgeBase.not_forall_failed_keeps_downstream` — a link that would close a cycle
  through a shared intermediate leaves a gap.
-/
import Groundwork.Proofs.Knowledge.Calls
import Groundwork.Proofs.Knowledge.Rewriting

set_option relaxedAutoImplicit false
set_option autoImplicit false

namespace Groundwork

open Relation

namespace KnowledgeBase

variable {kb : KnowledgeBase} {defaults : EdgeData}

/-- No behaviour removes a resource or a dependency from the graph. -/
structure Additive (kb : KnowledgeBase) : Prop where
  /-- Every resource stays. -/
  contains : ∀ l e behaviour, kb.entry? l = some e → e.expand = some behaviour →
    ∀ source target data u x, u.graph.contains x = true →
      (behaviour source target data u).1.graph.contains x = true
  /-- Every dependency stays. -/
  adj : ∀ l e behaviour, kb.entry? l = some e → e.expand = some behaviour →
    ∀ source target data u x y, u.graph.Adj x y →
      (behaviour source target data u).1.graph.Adj x y

/-- A link adds at most its ends and a dependency. -/
theorem Linking.additive (hkb : kb.Linking) : kb.Additive where
  contains l e behaviour hl he source target data u x hx := by
    obtain rfl := Option.some.inj ((hkb.links l e hl).symm.trans he)
    exact Site.contains_of_depend hx source target {}
  adj l e behaviour hl he source target data u x y hxy := by
    obtain rfl := Option.some.inj ((hkb.links l e hl).symm.trans he)
    exact Site.adj_of_depend hxy source target {}

/-! ### What stays -/

namespace Additive

/-- A link that is taken removes nothing. -/
theorem adj_outcome (hkb : kb.Additive) {data : EdgeData} (v : Visit) {x y : String}
    (hxy : v.before.graph.Adj x y) : (v.outcome kb data).graph.Adj x y := by
  rw [Visit.outcome]
  split
  case h_1 => exact hxy
  case h_2 behaviour hbehaviour =>
      obtain ⟨e, hl, he⟩ := Option.bind_eq_some_iff.1 hbehaviour
      exact hkb.adj _ e behaviour hl he _ _ _ _ x y hxy

/-- A walk along a chain removes nothing, whether its links fail or not. -/
theorem adj_walk (hkb : kb.Additive) {data : EdgeData} {s t : Site} {source : Handle}
    {stops : List (Link × Handle)} {visits : List Visit} (h : Walk kb data s source stops visits t)
    {x y : String} (hxy : s.graph.Adj x y) : t.graph.Adj x y := by
  induction h with
  | nil => exact hxy
  | @cons v rest visits t hv _ ih => exact ih (hv ▸ hkb.adj_outcome v hxy)

/-- The expansion of a dependency removes no other one, and not even this one if its chain has no
intermediates. -/
theorem adj_taken (hkb : kb.Additive) {v : Turn} (hv : v.Taken kb defaults)
    (hsource : v.before.store.Has v.edge.source) (htarget : v.before.store.Has v.edge.target)
    {x y : String} (hxy : v.before.graph.Adj x y) :
    v.after.graph.Adj x y ∨ (x = v.before.key v.edge.source ∧ y = v.before.key v.edge.target ∧
      ∃ path, kb.Chosen defaults v.before v.edge path ∧ intermediates path ≠ []) := by
  cases hv with
  | unchosen _ hafter _ => exact Or.inl (hafter ▸ hxy)
  | unmade _ _ _ _ _ hafter _ => exact Or.inl (hafter ▸ hxy)
  | gone _ _ _ _ _ hafter _ => exact Or.inl (hafter ▸ hxy)
  | walked path hpath _ _ hwalk =>
      have hgrows := v.before.store.grows_allocateAll ((intermediates path).map kb.blank)
      by_cases hmids : intermediates path = []
      · have hopened : (v.opened kb path).graph.Adj x y := by
          rw [Turn.opened, if_pos hmids]
          exact hxy
        exact Or.inl (hkb.adj_walk hwalk hopened)
      · by_cases hends : x = v.before.key v.edge.source ∧ y = v.before.key v.edge.target
        · exact Or.inr ⟨hends.1, hends.2, path, hpath, hmids⟩
        · have hopened : (v.opened kb path).graph.Adj x y := by
            rw [Turn.opened, if_neg hmids]
            refine (Site.adj_release _ _ _ x y).2 ⟨hxy, fun h => hends ?_⟩
            exact ⟨h.1.trans (hgrows.key_eq hsource), h.2.trans (hgrows.key_eq htarget)⟩
          exact Or.inl (hkb.adj_walk hwalk hopened)

end Additive

/-! ### What stays downstream -/

/-- **An expansion loses at most the dependency that it expands.**  If behaviours remove nothing,
then every other dependency stays, whatever fails on the way.  So whatever lay downstream along
other dependencies still does, and if the chain has no intermediates, whatever lay downstream at
all. -/
theorem expandEdge_loses_direct_only (hkb : kb.Additive) {p : Pass}
    {e : Digraph.Edge Handle Payload} (hsource : p.site.store.Has e.source)
    (htarget : p.site.store.Has e.target) :
    let direct (x y : String) : Prop := x = p.site.key e.source ∧ y = p.site.key e.target
    let after := (kb.expandEdge defaults p e).site.graph
    (∀ x y, p.site.graph.Adj x y → after.Adj x y ∨ direct x y) ∧
      (∀ u v, TransGen (fun x y => p.site.graph.Adj x y ∧ ¬ direct x y) u v → after.Leads u v) ∧
      ((∀ path, kb.Chosen defaults p.site e path → intermediates path = []) →
        ∀ u v, p.site.graph.Leads u v → after.Leads u v) := by
  intro direct after
  obtain ⟨site, visits, hv⟩ := Turn.Taken.exists_of_edge kb defaults e p.site
  have hsite : (kb.expandEdge defaults p e).site = site := (hv.sound rfl).1
  have hadj : ∀ x y, p.site.graph.Adj x y → after.Adj x y ∨ (direct x y ∧
      ∃ path, kb.Chosen defaults p.site e path ∧ intermediates path ≠ []) := by
    intro x y hxy
    rcases hkb.adj_taken hv hsource htarget hxy with hstays | ⟨hx, hy, hpath⟩
    · rw [← hsite] at hstays
      exact Or.inl hstays
    · exact Or.inr ⟨⟨hx, hy⟩, hpath⟩
  refine ⟨fun x y hxy => (hadj x y hxy).imp_right And.left, fun u v huv => ?_,
    fun hdirect u v huv => ?_⟩
  · refine TransGen.mono (fun x y hxy => ?_) u v huv
    exact (hadj x y hxy.1).resolve_right fun hgone => hxy.2 hgone.1
  · refine TransGen.mono (fun x y hxy => ?_) u v huv
    exact (hadj x y hxy).resolve_right fun ⟨_, path, hpath, hmids⟩ => hmids (hdirect path hpath)

/-! ### A gap in a chain -/

/-- A site in which a zero value of `test:b` depends on a resource of `test:a`, which depends on one
of `test:d`. -/
def detour : Site :=
  let part (kind name : String) : Resource :=
    { ident := { provider := "test", kind, scope := "zone", name } }
  let start : Site := { store := ⟨#[part "a" "x", part "d" "y", part "b" ""]⟩ }
  ((start.depend ⟨2⟩ ⟨0⟩ {}).1.depend ⟨0⟩ ⟨1⟩ {}).1

theorem reachable_detour : detour.Reachable :=
  ⟨_, rfl, ((Site.Reaches.refl _).depend ⟨2⟩ ⟨0⟩ {}).depend ⟨0⟩ ⟨1⟩ {}⟩

theorem dependencies_detour : detour.dependencies = [⟨⟨2⟩, ⟨0⟩, {}⟩, ⟨⟨0⟩, ⟨1⟩, {}⟩] := by
  have harcs : detour.graph.arcs = [⟨"test:a:zone:x", "test:d:zone:y", 1, {}⟩,
      ⟨"test:b:zone", "test:a:zone:x", 0, {}⟩] := rfl
  have hslots : detour.graph.arcsBySlot = [⟨"test:b:zone", "test:a:zone:x", 0, {}⟩,
      ⟨"test:a:zone:x", "test:d:zone:y", 1, {}⟩] := by
    rw [Digraph.arcsBySlot, harcs]
    simp [List.mergeSort, List.MergeSort.Internal.splitInTwo]
  rw [Site.dependencies, Digraph.edges, hslots]
  rfl

/-- The first dependency has no chain. -/
theorem expandEdge_detour :
    relay.expandEdge {} { site := detour } ⟨⟨2⟩, ⟨0⟩, {}⟩ = { site := detour } := by
  have hpaths : relay.paths (detour.store.ident ⟨2⟩).tag (detour.store.ident ⟨0⟩).tag = [] := by
    decide +kernel
  exact expandEdge_of_choose_none (choose_of_paths_eq_nil hpaths)

theorem expandPass_detour : relay.expandPass {} detour =
    relay.expandEdge {} { site := detour } ⟨⟨0⟩, ⟨1⟩, {}⟩ := by
  rw [expandPass, dependencies_detour, List.foldl_cons, expandEdge_detour]
  rfl

/-- The link to the intermediate would close a cycle. -/
theorem faults_detour :
    (relay.expandEdge {} { site := detour } ⟨⟨0⟩, ⟨1⟩, {}⟩).faults.list =
      [.expansion "test:a:zone:x" "test:b:zone"
        (.fault (.wouldCycle "test:a:zone:x" "test:b:zone"))] := rfl

/-- A link fails, and nothing but the dependency that was expanded is lost. -/
theorem expandEdge_loses_direct_only_detour :
    let after := relay.expandEdge {} { site := detour } ⟨⟨0⟩, ⟨1⟩, {}⟩
    relay.Additive ∧ detour.store.Has ⟨0⟩ ∧ detour.store.Has ⟨1⟩ ∧
      after.faults.list = [.expansion "test:a:zone:x" "test:b:zone"
        (.fault (.wouldCycle "test:a:zone:x" "test:b:zone"))] ∧
      after.site.graph.Adj "test:b:zone" "test:a:zone:x" := by
  have hsource : detour.store.Has ⟨0⟩ := by decide +kernel
  have htarget : detour.store.Has ⟨1⟩ := by decide +kernel
  have hadj : detour.graph.Adj "test:b:zone" "test:a:zone:x" :=
    Digraph.hasEdge_iff.1 (by decide +kernel)
  have hne : "test:b:zone" ≠ detour.key ⟨0⟩ := by decide +kernel
  obtain ⟨hother, -⟩ := @expandEdge_loses_direct_only relay {} linking_relay.additive
    { site := detour } ⟨⟨0⟩, ⟨1⟩, {}⟩ hsource htarget
  exact ⟨linking_relay.additive, hsource, htarget, faults_detour,
    (hother _ _ hadj).resolve_right fun hdirect => hne hdirect.1⟩

/-- What a dependency asks for can be lost although no behaviour removes anything. -/
theorem not_forall_failed_keeps_downstream :
    ¬ ∀ (kb : KnowledgeBase) (defaults : EdgeData) (s : Site), kb.Additive → s.Reachable →
      ∀ l e m, s.dependencies = l ++ e :: m →
        let before := l.foldl (kb.expandEdge defaults) { site := s }
        let after := kb.expandEdge defaults before e
        (∃ reports a b cause, after.faults.list = before.faults.list ++ reports ∧
          .expansion a b cause ∈ reports) →
        after.site.graph.Leads (before.site.key e.source) (before.site.key e.target) := by
  intro hkeeps
  have hleads := hkeeps relay {} detour linking_relay.additive reachable_detour
    [⟨⟨2⟩, ⟨0⟩, {}⟩] ⟨⟨0⟩, ⟨1⟩, {}⟩ [] dependencies_detour
  rw [List.foldl_cons, List.foldl_nil, expandEdge_detour] at hleads
  have hleads' := hleads ⟨_, _, _, _, faults_detour, List.mem_singleton_self _⟩
  rw [← expandPass_detour] at hleads'
  -- another dependency between the two, the other way round, would close no cycle
  have hcycle : (relay.expandPass {} detour).site.graph.createsCycle (detour.key ⟨1⟩)
      (detour.key ⟨0⟩) = false := by
    rw [expandPass_detour]
    decide +kernel
  have hgraph : (relay.expandPass {} detour).site.graph.WellFormed :=
    (linking_relay.reachable_expand reachable_detour {}).wellFormed
  exact Bool.eq_false_iff.1 hcycle
    ((Digraph.createsCycle_iff hgraph _ _).2 hleads'.to_reflTransGen)

end KnowledgeBase

end Groundwork
