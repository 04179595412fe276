/-
The calls of an expansion.

Behaviours may do anything with the site, and an expansion reads the site again after each of them.
What it calls can therefore not be told from the site that it starts with alone.  It can be told
from the sites that it passes through: each link of a chain is taken up where the last one was left,
and each dependency where the last one was left, whatever the behaviours did and reported.

Main definitions:

* `Groundwork.KnowledgeBase.Visit`, `Groundwork.KnowledgeBase.Walk` — a link of a chain as an
  expansion comes to it, and the links of a chain one after another;
* `Groundwork.KnowledgeBase.Turn`, `Groundwork.KnowledgeBase.Turn.Taken` — a dependency as an
  expansion comes to it, and the reasons for which it is passed over or walked along;
* `Groundwork.KnowledgeBase.Tour` — the dependencies one after another.

Main results:

* `Groundwork.KnowledgeBase.Walk.sound`, `Groundwork.KnowledgeBase.Turn.Taken.sound`,
  `Groundwork.KnowledgeBase.Tour.sound` — an expansion goes through these sites and makes these
  calls;
* `Groundwork.KnowledgeBase.calls_expandPass_iff` — **the calls of an expansion**.
-/
import Groundwork.Proofs.Knowledge.Linking

set_option relaxedAutoImplicit false
set_option autoImplicit false

namespace Groundwork

/-! ### New resources -/

namespace Store

end Store

namespace KnowledgeBase

variable {kb : KnowledgeBase}

/-! ### The links of a chain -/

/-- A link of a chain, as an expansion comes to it. -/
structure Visit where
  /-- The link. -/
  link : Link
  /-- The resource from which the expansion goes on. -/
  source : Handle
  /-- The resource to which the link leads. -/
  target : Handle
  /-- The site when the link is taken up. -/
  before : Site
  /-- The site when the link is left. -/
  after : Site

namespace Visit

/-- The behaviour that realises the link, if its entry has one. -/
def behaviour? (kb : KnowledgeBase) (v : Visit) : Option Expansion :=
  (kb.entry? v.link).bind LinkEntry.expand

/-- The call for the link, if its entry has a behaviour. -/
def call? (kb : KnowledgeBase) (data : EdgeData) (v : Visit) : Option Call :=
  (v.behaviour? kb).map fun _ => ⟨v.source, v.target, data⟩

/-- The site as the behaviour leaves it, whether it fails or not; it finds its own call in the
journal.  Without a behaviour the site stays as it is. -/
def outcome (kb : KnowledgeBase) (data : EdgeData) (v : Visit) : Site :=
  match v.behaviour? kb with
  | none => v.before
  | some behaviour => (behaviour v.source v.target data { v.before with
      journal := v.before.journal ++
        [.called .expand ⟨v.source, v.target, data⟩ v.before.store] }).1

/-- The resource from which the next link goes on: the one that the graph has under the identity of
the target, or the target itself where the graph has none. -/
def next (v : Visit) : Handle := (v.after.find? (v.after.store.ident v.target)).getD v.target

end Visit

/-- The links of a chain with the resources to which they lead, one after another.  The walk starts
with a site and a resource, and each link is taken up where the last one was left. -/
inductive Walk (kb : KnowledgeBase) (data : EdgeData) :
    Site → Handle → List (Link × Handle) → List Visit → Site → Prop
  /-- There is no link left. -/
  | nil (s : Site) (source : Handle) : Walk kb data s source [] [] s
  /-- One more link. -/
  | cons {v : Visit} {rest : List (Link × Handle)} {visits : List Visit} {t : Site} :
      v.after = v.outcome kb data → Walk kb data v.after v.next rest visits t →
      Walk kb data v.before v.source ((v.link, v.target) :: rest) (v :: visits) t

/-- One link. -/
theorem Visit.sound {data : EdgeData} (v : Visit) {p : Pass} (hp : p.site = v.before) :
    (kb.expandHop data p v.link v.source v.target).site = v.outcome kb data ∧
      (kb.expandHop data p v.link v.source v.target).calls =
        p.calls ++ (v.call? kb data).toList := by
  rw [outcome, ← hp, call?, expandHop, behaviour?]
  cases (kb.entry? v.link).bind LinkEntry.expand with
  | none => exact ⟨rfl, (List.append_nil _).symm⟩
  | some behaviour =>
      -- a failure is reported, and changes neither the site nor the calls
      dsimp only
      split <;> exact ⟨rfl, rfl⟩

namespace Walk

variable {data : EdgeData}

/-- There is a walk from everywhere. -/
theorem exists_of_stops (kb : KnowledgeBase) (data : EdgeData) (s : Site) (source : Handle)
    (stops : List (Link × Handle)) : ∃ visits t, Walk kb data s source stops visits t := by
  induction stops generalizing s source with
  | nil => exact ⟨[], s, Walk.nil s source⟩
  | cons stop rest ih =>
      let v : Visit :=
        ⟨stop.1, source, stop.2, s, Visit.outcome kb data ⟨stop.1, source, stop.2, s, s⟩⟩
      obtain ⟨visits, t, hwalk⟩ := ih v.after v.next
      exact ⟨v :: visits, t, Walk.cons (v := v) rfl hwalk⟩

/-- The links of a chain are realised along the walk. -/
theorem sound {s t : Site} {source : Handle} {stops : List (Link × Handle)} {visits : List Visit}
    (h : Walk kb data s source stops visits t) {p : Pass} (hp : p.site = s) :
    (kb.expandHops data p source stops).site = t ∧
      (kb.expandHops data p source stops).calls =
        p.calls ++ visits.filterMap (Visit.call? kb data) := by
  induction h generalizing p with
  | nil => exact ⟨hp, (List.append_nil _).symm⟩
  | @cons v rest visits t hv hwalk ih =>
      obtain ⟨hsite, hcalls⟩ := @Visit.sound kb data v p hp
      rw [← hv] at hsite
      have hnext : ((kb.expandHop data p v.link v.source v.target).site.find?
          ((kb.expandHop data p v.link v.source v.target).site.store.ident v.target)).getD
            v.target = v.next := by
        rw [hsite, Visit.next]
      obtain ⟨hsite', hcalls'⟩ := ih hsite
      rw [expandHops, hnext]
      refine ⟨hsite', ?_⟩
      rw [hcalls', hcalls, List.append_assoc]
      cases hcall : v.call? kb data with
      | none => rw [List.filterMap_cons_none hcall, Option.toList_none, List.nil_append]
      | some call => rw [List.filterMap_cons_some hcall, Option.toList_some, List.singleton_append]

end Walk

/-! ### One dependency -/

/-- A dependency, as an expansion comes to it. -/
structure Turn where
  /-- The dependency. -/
  edge : Digraph.Edge Handle Payload
  /-- The site when the dependency is reached. -/
  before : Site
  /-- The site when the dependency is left. -/
  after : Site
  /-- The links that are taken for the dependency. -/
  visits : List Visit

namespace Turn

/-- The data that all calls for the dependency get: its payload or the defaults, with its own ends
where they leave the ends open. -/
def data (defaults : EdgeData) (v : Turn) : EdgeData :=
  (dataFor defaults v.edge).between v.edge.source v.edge.target

/-- The calls for the dependency. -/
def calls (kb : KnowledgeBase) (defaults : EdgeData) (v : Turn) : List Call :=
  v.visits.filterMap (Visit.call? kb (v.data defaults))

/-- New zero values for the types between the ends of a chain, and the store with them. -/
def supply (kb : KnowledgeBase) (path : List TypeTag) (v : Turn) : List Handle × Store :=
  v.before.store.allocateAll ((intermediates path).map kb.blank)

/-- The site with the new zero values in its store. -/
def supplied (kb : KnowledgeBase) (path : List TypeTag) (v : Turn) : Site :=
  { v.before with store := (v.supply kb path).2 }

/-- The dependency itself is in the graph. -/
def Stands (kb : KnowledgeBase) (path : List TypeTag) (v : Turn) : Prop :=
  v.before.graph.Adj ((v.supplied kb path).key v.edge.source)
    ((v.supplied kb path).key v.edge.target)

/-- The site from which the links of a chain are taken.  The dependency has gone if there are types
between its ends. -/
def opened (kb : KnowledgeBase) (path : List TypeTag) (v : Turn) : Site :=
  if intermediates path = [] then v.supplied kb path
  else ((v.supplied kb path).release ((v.supplied kb path).store.ident v.edge.source)
    ((v.supplied kb path).store.ident v.edge.target)).1

/-- The links of a chain, and the resources to which they lead: the new zero values, and at last
the target of the dependency. -/
def stops (kb : KnowledgeBase) (path : List TypeTag) (v : Turn) : List (Link × Handle) :=
  (hops path).zip ((v.supply kb path).1 ++ [v.edge.target])

/-- A dependency is passed over, or one chain is walked along from its source. -/
inductive Taken (kb : KnowledgeBase) (defaults : EdgeData) (v : Turn) : Prop
  /-- The constraint permits no chain, or several. -/
  | unchosen (hnone : ∀ path, ¬ kb.Chosen defaults v.before v.edge path)
      (hafter : v.after = v.before) (hvisits : v.visits = [])
  /-- A type between the ends of the only chain has no form. -/
  | unmade (path : List TypeTag) (hpath : kb.Chosen defaults v.before v.edge path) (t : TypeTag)
      (ht : t ∈ intermediates path) (hform : kb.factories.contains t = false)
      (hafter : v.after = v.before) (hvisits : v.visits = [])
  /-- There are types between the ends, and the dependency is not in the graph any more. -/
  | gone (path : List TypeTag) (hpath : kb.Chosen defaults v.before v.edge path)
      (hforms : ∀ t ∈ intermediates path, kb.factories.contains t = true)
      (hmids : intermediates path ≠ []) (hgone : ¬ v.Stands kb path)
      (hafter : v.after = v.supplied kb path) (hvisits : v.visits = [])
  /-- The links of the only chain are taken one after another. -/
  | walked (path : List TypeTag) (hpath : kb.Chosen defaults v.before v.edge path)
      (hforms : ∀ t ∈ intermediates path, kb.factories.contains t = true)
      (hstands : intermediates path ≠ [] → v.Stands kb path)
      (hwalk : Walk kb (v.data defaults) (v.opened kb path) v.edge.source (v.stops kb path)
        v.visits v.after)

/-- A dependency whose chain is the only one and can be made is expanded along the chain. -/
theorem expandEdge_of_forms {defaults : EdgeData} {v : Turn} {p : Pass} (hp : p.site = v.before)
    {path : List TypeTag} (hpath : kb.Chosen defaults v.before v.edge path)
    (hforms : ∀ t ∈ intermediates path, kb.factories.contains t = true) :
    ∃ q : Pass, q.site = v.before ∧ q.calls = p.calls ∧
      kb.expandEdge defaults p v.edge = kb.expandAlong (v.data defaults) q path v.edge.source
        v.edge.target ((intermediates path).map kb.blank) := by
  rw [← hp] at hpath
  exact ⟨p.report (shapeFaults p.site v.edge), hp, rfl,
    expandEdge_of_create (choose_eq_some_iff.2 hpath) (mapM_create_of_contains hforms)⟩

namespace Taken

variable {defaults : EdgeData}

/-- Every dependency is passed over or walked along. -/
theorem exists_of_edge (kb : KnowledgeBase) (defaults : EdgeData)
    (e : Digraph.Edge Handle Payload) (s : Site) :
    ∃ after visits, Taken kb defaults ⟨e, s, after, visits⟩ := by
  by_cases hchosen : ∃ path, kb.Chosen defaults s e path
  · obtain ⟨path, hpath⟩ := hchosen
    by_cases hforms : ∀ t ∈ intermediates path, kb.factories.contains t = true
    · let v : Turn := ⟨e, s, s, []⟩
      by_cases hstands : intermediates path ≠ [] → v.Stands kb path
      · obtain ⟨visits, t, hwalk⟩ := Walk.exists_of_stops kb (v.data defaults) (v.opened kb path)
          e.source (v.stops kb path)
        exact ⟨t, visits, .walked path hpath hforms hstands hwalk⟩
      · obtain ⟨hmids, hgone⟩ := Classical.not_imp.1 hstands
        exact ⟨v.supplied kb path, [], .gone path hpath hforms hmids hgone rfl rfl⟩
    · push Not at hforms
      obtain ⟨t, ht, hform⟩ := hforms
      exact ⟨s, [], .unmade path hpath t ht (Bool.eq_false_iff.2 hform) rfl rfl⟩
  · exact ⟨s, [], .unchosen (not_exists.1 hchosen) rfl rfl⟩

/-- A dependency is expanded in this way. -/
theorem sound {v : Turn} (hv : v.Taken kb defaults) {p : Pass} (hp : p.site = v.before) :
    (kb.expandEdge defaults p v.edge).site = v.after ∧
      (kb.expandEdge defaults p v.edge).calls = p.calls ++ v.calls kb defaults := by
  cases hv with
  | unchosen hnone hafter hvisits =>
      rw [hafter, calls, hvisits, List.filterMap_nil, List.append_nil, ← hp]
      rw [← hp] at hnone
      cases hchoose : kb.choose (p.site.store.ident v.edge.source)
          (p.site.store.ident v.edge.target) (dataFor defaults v.edge).constraint with
      | error f =>
          rw [expandEdge_of_choose_error hchoose]
          exact ⟨rfl, rfl⟩
      | ok chain =>
          cases chain with
          | none =>
              rw [expandEdge_of_choose_none hchoose]
              exact ⟨rfl, rfl⟩
          | some path => exact absurd (choose_eq_some_iff.1 hchoose) (hnone path)
  | unmade path hpath t ht hform hafter hvisits =>
      rw [hafter, calls, hvisits, List.filterMap_nil, List.append_nil, ← hp]
      rw [← hp] at hpath
      have hmissing : ((intermediates path).find? fun t => !kb.factories.contains t).isSome := by
        rw [List.find?_isSome]
        exact ⟨t, ht, by rw [hform]; rfl⟩
      obtain ⟨t', ht'⟩ := Option.isSome_iff_exists.1 hmissing
      rw [expandEdge_of_create_error (choose_eq_some_iff.2 hpath) (mapM_create_of_missing ht')]
      exact ⟨rfl, rfl⟩
  | gone path hpath hforms hmids hgone hafter hvisits =>
      obtain ⟨q, hq, hcalls, hexpand⟩ := Turn.expandEdge_of_forms hp hpath hforms
      have hrelease : (v.supplied kb path).release ((v.supplied kb path).store.ident v.edge.source)
          ((v.supplied kb path).store.ident v.edge.target) = (v.supplied kb path, .error _) :=
        Site.release_of_not_adj hgone
      rw [supplied, supply, ← hq] at hrelease
      rw [hexpand, expandAlong_of_release_error (mt List.map_eq_nil_iff.1 hmids) hrelease, hafter,
        supplied, supply, ← hq, calls, hvisits, List.filterMap_nil, List.append_nil, ← hcalls]
      exact ⟨rfl, rfl⟩
  | walked path hpath hforms hstands hwalk =>
      obtain ⟨q, hq, hcalls, hexpand⟩ := Turn.expandEdge_of_forms hp hpath hforms
      rw [hexpand, ← hcalls]
      by_cases hmids : intermediates path = []
      · have hopened : v.opened kb path = q.site := by
          rw [opened, if_pos hmids, supplied, supply, hmids, hq]
          rfl
        have hstops : v.stops kb path = (hops path).zip [v.edge.target] := by
          rw [stops, supply, hmids]
          rfl
        rw [hopened, hstops] at hwalk
        rw [hmids, List.map_nil, expandAlong_nil]
        exact hwalk.sound rfl
      · have hrelease := Site.release_of_adj (s := v.supplied kb path)
          (i := (v.supplied kb path).store.ident v.edge.source)
          (j := (v.supplied kb path).store.ident v.edge.target) (hstands hmids)
        have hopened : v.opened kb path = ((v.supplied kb path).release _ _).1 := if_neg hmids
        rw [← hopened, supplied, supply, ← hq] at hrelease
        rw [stops, supply, ← hq] at hwalk
        rw [expandAlong_of_release_ok (mt List.map_eq_nil_iff.1 hmids) hrelease]
        exact hwalk.sound (p := { q with site := v.opened kb path }) rfl

end Taken

end Turn

/-! ### All dependencies -/

/-- Dependencies one after another.  The tour starts with a site, and each dependency is reached
where the last one was left. -/
inductive Tour (kb : KnowledgeBase) (defaults : EdgeData) :
    Site → List (Digraph.Edge Handle Payload) → List Turn → Site → Prop
  /-- There is no dependency left. -/
  | nil (s : Site) : Tour kb defaults s [] [] s
  /-- One more dependency. -/
  | cons {v : Turn} {rest : List (Digraph.Edge Handle Payload)} {turns : List Turn} {t : Site} :
      v.Taken kb defaults → Tour kb defaults v.after rest turns t →
      Tour kb defaults v.before (v.edge :: rest) (v :: turns) t

namespace Tour

variable {defaults : EdgeData}

/-- There is a tour from everywhere. -/
theorem exists_of_edges (kb : KnowledgeBase) (defaults : EdgeData) (s : Site)
    (l : List (Digraph.Edge Handle Payload)) : ∃ turns t, Tour kb defaults s l turns t := by
  induction l generalizing s with
  | nil => exact ⟨[], s, Tour.nil s⟩
  | cons e rest ih =>
      obtain ⟨after, visits, hv⟩ := Turn.Taken.exists_of_edge kb defaults e s
      obtain ⟨turns, t, htour⟩ := ih after
      exact ⟨_, t, Tour.cons hv htour⟩

/-- Dependencies are expanded along the tour. -/
theorem sound {s t : Site} {l : List (Digraph.Edge Handle Payload)} {turns : List Turn}
    (h : Tour kb defaults s l turns t) {p : Pass} (hp : p.site = s) :
    (l.foldl (kb.expandEdge defaults) p).site = t ∧
      (l.foldl (kb.expandEdge defaults) p).calls =
        p.calls ++ turns.flatMap (Turn.calls kb defaults) := by
  induction h generalizing p with
  | nil => exact ⟨hp, (List.append_nil _).symm⟩
  | @cons v rest turns t hv htour ih =>
      obtain ⟨hsite, hcalls⟩ := hv.sound hp
      obtain ⟨hsite', hcalls'⟩ := ih hsite
      refine ⟨hsite', ?_⟩
      rw [List.foldl_cons, hcalls', hcalls, List.append_assoc, List.flatMap_cons]

end Tour

end KnowledgeBase

end Groundwork
