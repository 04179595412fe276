/-
Expanding twice.

An expansion that succeeds leaves no work for another one.  A dependency that it kept has no chain
with intermediates, or it would have gone.  A dependency that it made carries no constraint and
joins the ends of a link, which is a chain of its own: either this is the only chain, and has no
intermediates, or there are several, and nothing is guessed.

Main definitions:

* `Groundwork.KnowledgeBase.Unrestricted` — links that may be used in all chains;
* `Groundwork.KnowledgeBase.Settled` — a site whose dependencies have no chains with intermediates.

Main results:

* `Groundwork.KnowledgeBase.Settled.expand` — an expansion leaves a settled site alone;
* `Groundwork.KnowledgeBase.settled_of_ok` — an expansion that succeeds leaves a settled site;
* `Groundwork.KnowledgeBase.expand_expand` — **a second expansion changes nothing**.
-/
import Groundwork.Proofs.Knowledge.Rewriting

set_option relaxedAutoImplicit false
set_option autoImplicit false

namespace Groundwork

open Groundwork.Digraph (neighbours proper neighbours_cons_cons)

namespace KnowledgeBase

variable {kb : KnowledgeBase} {defaults : EdgeData} {s : Site}

/-! ### Links that may be used in all chains -/

/-- No entry names the chains for which its link may be used. -/
def Unrestricted (kb : KnowledgeBase) : Prop :=
  ∀ l e, kb.entry? l = some e → e.destinations = []

theorem unrestricted_empty : Unrestricted {} := fun _ _ he => by cases he

theorem Unrestricted.addForms (hkb : kb.Unrestricted) (source target : Form) {e : LinkEntry}
    (he : e.destinations = []) : (kb.addForms source target e).1.Unrestricted :=
  forall_entry_addForms kb source target e hkb he

theorem Unrestricted.usable (hkb : kb.Unrestricted) {a b : TypeTag} {e : LinkEntry}
    (he : kb.entry? ⟨a, b⟩ = some e) (destination : TypeTag) : kb.Usable destination a b :=
  ⟨e, he, by rw [LinkEntry.admits, hkb _ e he]; simp⟩

/-! ### Settled sites -/

/-- No dependency stands for a chain with intermediates. -/
def Settled (kb : KnowledgeBase) (defaults : EdgeData) (s : Site) : Prop :=
  ∀ e ∈ s.dependencies, ∀ path, kb.Chosen defaults s e path → intermediates path = []

/-- A link between resources that depend on each other already changes nothing. -/
theorem Linking.expandHop_of_adj (hkb : kb.Linking) {data : EdgeData} {p : Pass} {l : Link}
    {previous next : Handle} (hl : ∃ e, kb.entry? l = some e)
    (hprevious : p.site.graph.contains (p.site.key previous) = true)
    (hnext : p.site.graph.contains (p.site.key next) = true)
    (hadj : p.site.graph.Adj (p.site.key previous) (p.site.key next)) :
    (kb.expandHop data p l previous next).site.graph = p.site.graph ∧
      (kb.expandHop data p l previous next).site.store = p.site.store := by
  obtain ⟨e, he⟩ := hl
  have hgraph := Site.graph_depend_of_adj (s := (p.note .expand ⟨previous, next, data⟩).site)
    hprevious hnext hadj
  have hstore := Site.store_depend (p.note .expand ⟨previous, next, data⟩).site previous next {}
  rw [KnowledgeBase.expandHop, he, Option.bind_some, hkb.links l e he]
  dsimp only [Expansion.link, Script.liftFault]
  -- a failure is reported, and changes no more than that
  split <;> exact ⟨hgraph, hstore⟩

/-- A dependency without intermediates stays as it is. -/
theorem Linking.expandEdge_of_direct (hkb : kb.Linking) {p : Pass}
    {e : Digraph.Edge Handle Payload}
    (hsource : p.site.graph.contains (p.site.key e.source) = true)
    (htarget : p.site.graph.contains (p.site.key e.target) = true)
    (hadj : p.site.graph.Adj (p.site.key e.source) (p.site.key e.target))
    (hdirect : ∀ path, kb.Chosen defaults p.site e path → intermediates path = []) :
    (kb.expandEdge defaults p e).site.graph = p.site.graph ∧
      (kb.expandEdge defaults p e).site.store = p.site.store := by
  cases hchoose : kb.choose (p.site.store.ident e.source) (p.site.store.ident e.target)
      (dataFor defaults e).constraint with
  | error f =>
      rw [expandEdge_of_choose_error hchoose]
      exact ⟨rfl, rfl⟩
  | ok chain =>
      cases chain with
      | none =>
          rw [expandEdge_of_choose_none hchoose]
          exact ⟨rfl, rfl⟩
      | some path =>
          have hpath : kb.Chosen defaults p.site e path := choose_eq_some_iff.1 hchoose
          have hmids := hdirect path hpath
          have hcreate : (intermediates path).mapM kb.create = .ok [] := by
            rw [hmids]
            rfl
          rw [expandEdge_of_create hchoose hcreate, expandAlong_nil]
          rcases hpath.chain.eq_singleton_or with hsingle | hends
          · rw [hsingle]
            exact ⟨rfl, rfl⟩
          · have hlink : (hops path).zip [e.target] =
                [(⟨(p.site.store.ident e.source).tag, (p.site.store.ident e.target).tag⟩,
                  e.target)] := by
              rw [hends, hmids]
              rfl
            have hentry := hpath.chain.exists_entry
              (l := ⟨(p.site.store.ident e.source).tag, (p.site.store.ident e.target).tag⟩)
              (by rw [hends, hmids]; exact List.mem_singleton_self _)
            rw [hlink]
            exact hkb.expandHop_of_adj (p := p.report (shapeFaults p.site e)) hentry hsource
              htarget hadj

namespace Settled

/-- One dependency of a settled site. -/
theorem step (h : kb.Settled defaults s) (hkb : kb.Linking) (hs : s.Filed) {p : Pass}
    (hgraph : p.site.graph = s.graph) (hstore : p.site.store = s.store)
    {e : Digraph.Edge Handle Payload} (he : e ∈ s.dependencies) :
    (kb.expandEdge defaults p e).site.graph = s.graph ∧
      (kb.expandEdge defaults p e).site.store = s.store := by
  obtain ⟨hsource, htarget⟩ := hs.get?_of_mem_dependencies he
  have hkey (a : Handle) : p.site.key a = s.key a := by rw [Site.key, hstore, Site.key]
  have hsource' : p.site.graph.contains (p.site.key e.source) = true := by
    rw [hgraph, hkey]
    exact Digraph.contains_iff.2 ⟨_, hsource⟩
  have htarget' : p.site.graph.contains (p.site.key e.target) = true := by
    rw [hgraph, hkey]
    exact Digraph.contains_iff.2 ⟨_, htarget⟩
  have hadj : p.site.graph.Adj (p.site.key e.source) (p.site.key e.target) := by
    rw [hgraph, hkey, hkey]
    exact hs.adj_of_mem_dependencies he
  have hdirect : ∀ path, kb.Chosen defaults p.site e path → intermediates path = [] := by
    intro path hpath
    rw [Chosen, hstore] at hpath
    exact h e he path hpath
  obtain ⟨hgraph', hstore'⟩ := hkb.expandEdge_of_direct hsource' htarget' hadj hdirect
  exact ⟨hgraph'.trans hgraph, hstore'.trans hstore⟩

/-- Dependencies of a settled site one after another. -/
theorem run (h : kb.Settled defaults s) (hkb : kb.Linking) (hs : s.Filed)
    {l : List (Digraph.Edge Handle Payload)} (hl : ∀ e ∈ l, e ∈ s.dependencies) {p : Pass}
    (hgraph : p.site.graph = s.graph) (hstore : p.site.store = s.store) :
    (l.foldl (kb.expandEdge defaults) p).site.graph = s.graph ∧
      (l.foldl (kb.expandEdge defaults) p).site.store = s.store := by
  induction l generalizing p with
  | nil => exact ⟨hgraph, hstore⟩
  | cons e l ih =>
      obtain ⟨he, hrest⟩ := List.forall_mem_cons.1 hl
      obtain ⟨hgraph', hstore'⟩ := h.step hkb hs hgraph hstore he
      exact ih hrest hgraph' hstore'

/-- An expansion leaves a settled site alone, whatever it reports. -/
theorem expand (h : kb.Settled defaults s) (hkb : kb.Linking) (hs : s.Filed) :
    (kb.expand defaults s).1.graph = s.graph ∧ (kb.expand defaults s).1.store = s.store :=
  h.run hkb hs (fun _ he => he) (p := { site := s }) rfl rfl

end Settled

/-! ### What an expansion leaves -/

/-- Neighbours among the texts of a chain stand for the ends of one of its links. -/
theorem exists_hop_of_mem_neighbours {R : TypeTag → String → Prop} {path : List TypeTag}
    {texts : List String} (h : List.Forall₂ R path texts) {x y : String}
    (hxy : (x, y) ∈ neighbours texts) : ∃ a b, ⟨a, b⟩ ∈ hops path ∧ R a x ∧ R b y := by
  induction h with
  | nil => exact absurd hxy List.not_mem_nil
  | @cons a u path texts hau hrest ih =>
      cases hrest with
      | nil => exact absurd hxy List.not_mem_nil
      | @cons b v path texts hbv hrest =>
          rw [neighbours_cons_cons] at hxy
          rcases hxy with heq | hxy
          · cases heq
            exact ⟨a, b, List.mem_cons_self, hau, hbv⟩
          · obtain ⟨c, d, hcd, hc, hd⟩ := ih hxy
            exact ⟨c, d, List.mem_cons_of_mem _ hcd, hc, hd⟩

/-- Identities of zero values on the chains are known. -/
theorem supplies_known (kb : KnowledgeBase) (defaults : EdgeData) (s : Site) :
    kb.Supplies defaults s fun r => r.ident ∈ kb.known defaults s :=
  fun _ he _ hpath _ ht => blank_ident_mem_known he (hpath.crossed_eq ▸ ht)

theorem housed_known (kb : KnowledgeBase) (defaults : EdgeData) (hs : s.Filed) :
    s.Housed fun r => r.ident ∈ kb.known defaults s :=
  fun x a ha => ⟨(hs x a ha).1, ident_mem_known ha⟩

namespace Underway

variable {p : Pass}

/-- A dependency that was there before and has stayed has no chain with intermediates. -/
theorem direct_of_kept {K : Resource → Prop} (h : Underway kb defaults K s s.dependencies p)
    (hs : s.Filed) (hg : s.graph.WellFormed) (hg' : p.site.graph.WellFormed)
    {e : Digraph.Edge Handle Payload} (he : e ∈ p.site.dependencies)
    (hkept : (p.site.key e.source, p.site.key e.target) ∈
      s.graph.edgeSet \ kb.removed defaults s s.dependencies)
    {path : List TypeTag} (hpath : kb.Chosen defaults p.site e path) : intermediates path = [] := by
  have hs' := h.after.filed hs
  obtain ⟨hsource, htarget⟩ := hs'.get?_of_mem_dependencies he
  obtain ⟨hsource', htarget'⟩ := hg.contains_of_adj hkept.1
  obtain ⟨a, ha⟩ := Digraph.contains_iff.1 hsource'
  obtain ⟨b, hb⟩ := Digraph.contains_iff.1 htarget'
  obtain rfl := Option.some.inj ((h.after.kept _ _ ha).symm.trans hsource)
  obtain rfl := Option.some.inj ((h.after.kept _ _ hb).symm.trans htarget)
  -- so the dependency was listed before, with the same payload and the same chain
  have hproperties := hs'.properties?_of_mem_dependencies hg' he
  rw [h.rewrites.properties _ _ hkept] at hproperties
  have he' : e ∈ s.dependencies := hg.mem_edges_iff_properties?.2 ⟨_, _, ha, hb, hproperties⟩
  rw [Chosen, h.after.grows.ident_eq (hs _ _ ha).1, h.after.grows.ident_eq (hs _ _ hb).1] at hpath
  by_contra hmids
  refine hkept.2 ⟨e, he', path, hpath, hmids, ?_⟩
  exact congrArg₂ Prod.mk (h.after.grows.key_eq (hs _ _ ha).1) (h.after.grows.key_eq (hs _ _ hb).1)

/-- A dependency that has come joins the ends of a link, which is a chain that nothing rules out.
So it has no other chain of its own. -/
theorem direct_of_made
    (h : Underway kb {} (fun r => r.ident ∈ kb.known {} s) s s.dependencies p) (hkb : Built kb)
    (hopen : kb.Unrestricted) (hs : s.Filed) (htexts : kb.TextsTell {} s)
    (hg' : p.site.graph.WellFormed) {e : Digraph.Edge Handle Payload}
    (he : e ∈ p.site.dependencies)
    (hmade : (p.site.key e.source, p.site.key e.target) ∉
      s.graph.edgeSet \ kb.removed {} s s.dependencies)
    {path : List TypeTag} (hpath : kb.Chosen {} p.site e path) : intermediates path = [] := by
  have hs' := h.after.filed hs
  obtain ⟨hsource, htarget⟩ := hs'.get?_of_mem_dependencies he
  have hadded := (h.rewrites.upper (hs'.adj_of_mem_dependencies he)).resolve_left hmade
  rw [joined_eq_added hs] at hadded
  obtain ⟨⟨e', he', path', hpath', hxy⟩, -⟩ := hadded
  obtain ⟨a, b, hab, ha, hb⟩ :=
    exists_hop_of_mem_neighbours (forall₂_stands_route hkb hs he' hpath') hxy
  obtain ⟨entry, hentry⟩ := hpath'.chain.exists_entry hab
  -- the texts tell that the ends of the dependency have the types of the link
  have hsourcetag : (p.site.store.ident e.source).tag = a :=
    htexts.eq_of_stands ⟨_, (h.after.housed _ _ hsource).2, rfl, rfl⟩ ha
  have htargettag : (p.site.store.ident e.target).tag = b :=
    htexts.eq_of_stands ⟨_, (h.after.housed _ _ htarget).2, rfl, rfl⟩ hb
  have hplain : e.properties = {} :=
    h.plain _ _ _ hmade (hs'.properties?_of_mem_dependencies hg' he)
  have hpair : [a, b] ∈ (kb.paths a b).filter (dataFor {} e).constraint.permits := by
    refine List.mem_filter.2 ⟨pair_mem_paths (hopen.usable hentry b) ?_, ?_⟩
    · exact ne_of_mem_hops hpath'.chain.nodup hab
    · have hfree : (dataFor {} e).constraint = {} := by
        rw [dataFor, hplain]
      rw [hfree, EdgeConstraint.permits_iff]
      exact ⟨fun t ht => absurd ht List.not_mem_nil, fun t ht => absurd ht List.not_mem_nil⟩
  rw [Chosen, hsourcetag, htargettag] at hpath
  rw [hpath] at hpair
  obtain rfl := List.mem_singleton.1 hpair
  rfl

end Underway

/-! ### Expanding twice -/

/-- An expansion that succeeds leaves a settled site. -/
theorem settled_of_ok (hkb : kb.Linking) (hopen : kb.Unrestricted) (hs : s.Reachable)
    (hfiled : s.Filed) (htexts : kb.TextsTell {} s) (hok : (kb.expand {} s).2 = .ok ()) :
    kb.Settled {} (kb.expand {} s).1 := by
  intro e he path hpath
  have hunder := underway_of_ok hkb hs (housed_known kb {} hfiled) (supplies_known kb {} s) hok
  have hgraph := (hkb.reachable_expand hs {}).wellFormed
  by_cases hkept : ((kb.expand {} s).1.key e.source, (kb.expand {} s).1.key e.target) ∈
      s.graph.edgeSet \ kb.removed {} s s.dependencies
  · exact hunder.direct_of_kept hfiled hs.wellFormed hgraph he hkept hpath
  · exact hunder.direct_of_made hkb.built hopen hfiled htexts hgraph he hkept hpath

/-- **A second expansion changes nothing.**  If no entry names the chains for which its link may be
used, and an expansion by links reports nothing, then another one leaves every resource and every
dependency as it was, with what they carry, whatever it reports itself. -/
theorem expand_expand (hkb : kb.Linking) (hopen : kb.Unrestricted) (hs : s.Reachable)
    (hfiled : s.Filed) (htexts : kb.TextsTell {} s) (hok : (kb.expand {} s).2 = .ok ()) :
    let once := (kb.expand {} s).1
    (kb.expand {} once).1.graph = once.graph ∧ (kb.expand {} once).1.store = once.store :=
  (settled_of_ok hkb hopen hs hfiled htexts hok).expand hkb
    (expanded_of_ok hkb hs hfiled hok).filed

/-- The first expansion replaces both dependencies by three, and the second one keeps these. -/
theorem expand_expand_demand :
    let once := (relay.expand {} demand).1
    demand.graph.size = 2 ∧ once.graph.size = 3 ∧ (relay.expand {} once).1.graph = once.graph := by
  intro once
  have hopen : relay.Unrestricted := (unrestricted_empty.addForms _ _ rfl).addForms _ _ rfl
  have htexts : relay.TextsTell {} demand := by
    rw [TextsTell, known, dependencies_demand]
    decide +kernel
  obtain ⟨hgraph, -⟩ :=
    expand_expand linking_relay hopen reachable_demand filed_demand htexts expand_demand_ok
  refine ⟨by decide +kernel, ?_, hgraph⟩
  change (relay.expand {} demand).1.graph.size = 3
  rw [expand, expandPass, dependencies_demand]
  decide +kernel

end KnowledgeBase

end Groundwork
