/-
Knowledge bases of links.

The simplest behaviour of a link makes its start depend on its end.  Where all behaviours are of
this sort, the links of a chain add pairs of texts to the edges of the graph, each link going on
from the resource that the graph has under the text where the last one ended.  If every resource
is filed under its own text, these are the pairs of neighbours on the chain.

Main definitions:

* `Groundwork.Expansion.link`, `Groundwork.KnowledgeBase.Linking` — the behaviour, and knowledge
  bases without any other;
* `Groundwork.KnowledgeBase.route` — the texts that a chain goes through;
* `Groundwork.KnowledgeBase.Chosen` — the only chain that a dependency may take;
* `Groundwork.KnowledgeBase.removed`, `Groundwork.KnowledgeBase.joined`,
  `Groundwork.KnowledgeBase.added`, `Groundwork.KnowledgeBase.made` — what the expansion of
  dependencies removes and adds.

Main results:

* `Groundwork.KnowledgeBase.Linking.expandHops`, `Groundwork.KnowledgeBase.Linking.expandAlong` —
  the graph after the links of a chain;
* `Groundwork.KnowledgeBase.Linking.expandEdge` — the graph after the expansion of one dependency;
* `Groundwork.KnowledgeBase.joined_eq_added`, `Groundwork.KnowledgeBase.ends_added` — what is added
  where every resource is filed under its own text.
-/
import Groundwork.Knowledge.Script
import Groundwork.Proofs.Knowledge.Building
import Groundwork.Proofs.Knowledge.Refusal
import Groundwork.Proofs.Resource.Landing

set_option relaxedAutoImplicit false
set_option autoImplicit false

namespace Groundwork

open Groundwork.Digraph (neighbours proper ends proper_union)

/-- Makes the start of a link depend on its end, and reports what is wrong with that. -/
def Expansion.link : Expansion := fun source target _ s =>
  Script.liftFault (s.depend source target {})

/-- The script with the single action to link is this behaviour. -/
theorem Expansion.script_link : Script.expansion [.link] = Expansion.link := by
  funext source target data s
  rw [Script.expansion, Script.inTurn]
  split
  case h_1 hok => exact hok.symm
  case h_2 => rfl

namespace KnowledgeBase

/-! ### Knowledge bases of links -/

/-- Knowledge bases to which entries were added between the types of forms only. -/
inductive Built : KnowledgeBase → Prop
  | empty : Built {}
  | addForms {kb : KnowledgeBase} (source target : Form) (e : LinkEntry) :
      Built kb → Built (kb.addForms source target e).1

/-- Every entry links the resources that it is given, and does nothing else. -/
structure Linking (kb : KnowledgeBase) : Prop where
  /-- Entries were added between the types of forms only. -/
  built : Built kb
  /-- Every entry has the behaviour of a link. -/
  links : ∀ l e, kb.entry? l = some e → e.expand = some Expansion.link

namespace Built

variable {kb : KnowledgeBase}

theorem stocked (h : Built kb) : kb.Stocked := by
  induction h with
  | empty => exact Stocked.empty
  | addForms source target e _ ih => exact ih.addForms source target e

/-- The zero value of a type that a link enters has this type. -/
theorem tag_blank (h : Built kb) {a t : TypeTag} {e : LinkEntry}
    (he : kb.entry? ⟨a, t⟩ = some e) : (kb.blank t).ident.tag = t :=
  h.stocked.tag_blank (h.stocked.target_contains he)

end Built

theorem linking_empty : Linking {} where
  built := Built.empty
  links _ _ he := by cases he

/-- Entries of links are added one by one. -/
theorem Linking.addForms {kb : KnowledgeBase} (hkb : kb.Linking) (source target : Form)
    {e : LinkEntry} (he : e.expand = some Expansion.link) :
    (kb.addForms source target e).1.Linking where
  built := hkb.built.addForms source target e
  links := forall_entry_addForms kb source target e hkb.links he

/-! ### What an expansion changes -/

/-- The texts of the resources that a chain goes through, the intermediates being zero values. -/
def route (kb : KnowledgeBase) (source target : String) (path : List TypeTag) : List String :=
  if path.length ≤ 1 then [source]
  else source :: (intermediates path).map kb.zeroKey ++ [target]

section Route

variable {kb : KnowledgeBase} {source target : String} {path : List TypeTag}

theorem route_eq_cons (kb : KnowledgeBase) (source target : String) (path : List TypeTag) :
    kb.route source target path = source :: (kb.route source target path).tail := by
  rw [route]
  split <;> rfl

theorem mem_route {x : String} (hx : x ∈ kb.route source target path) :
    x = source ∨ x = target ∨ ∃ t ∈ intermediates path, x = kb.zeroKey t := by
  rw [route] at hx
  split at hx
  · exact Or.inl (List.mem_singleton.1 hx)
  · have hx' : x = source ∨ (∃ t ∈ intermediates path, kb.zeroKey t = x) ∨ x = target := by
      simpa using hx
    rcases hx' with h | ⟨t, ht, rfl⟩ | h
    · exact Or.inl h
    · exact Or.inr (Or.inr ⟨t, ht, rfl⟩)
    · exact Or.inr (Or.inl h)

theorem length_intermediates (path : List TypeTag) :
    (intermediates path).length = path.length - 2 := by
  rw [intermediates, List.length_dropLast, List.length_tail, Nat.sub_sub]

theorem lt_length_of_mem_intermediates {t : TypeTag} (ht : t ∈ intermediates path) :
    ¬ path.length ≤ 1 := by
  have hpos := List.length_pos_of_mem ht
  rw [length_intermediates] at hpos
  omega

theorem zeroKey_mem_route (kb : KnowledgeBase) (source target : String) {t : TypeTag}
    (ht : t ∈ intermediates path) :
    kb.zeroKey t ∈ kb.route source target path := by
  rw [route, if_neg (lt_length_of_mem_intermediates ht)]
  exact List.mem_append_left _ (List.mem_cons_of_mem _ (List.mem_map_of_mem ht))

/-- A chain with two ends goes through its intermediates. -/
theorem route_of_ends {a b : TypeTag} (hends : path = a :: intermediates path ++ [b]) :
    kb.route source target path = source :: (intermediates path).map kb.zeroKey ++ [target] := by
  have hlength : ¬ path.length ≤ 1 := by
    rw [hends, List.length_append, List.length_cons, List.length_singleton]
    omega
  rw [route, if_neg hlength]

/-- A route with intermediates leads from the source to the target. -/
theorem exists_route_eq_cons (kb : KnowledgeBase) (source target : String) {t : TypeTag}
    (ht : t ∈ intermediates path) :
    ∃ l, kb.route source target path = source :: l ∧ target ∈ l := by
  rw [route, if_neg (lt_length_of_mem_intermediates ht)]
  exact ⟨_, rfl, List.mem_append_right _ (List.mem_singleton_self target)⟩

end Route

/-- A chain is the only one that a dependency may take. -/
def Chosen (kb : KnowledgeBase) (defaults : EdgeData) (s : Site)
    (e : Digraph.Edge Handle Payload) (path : List TypeTag) : Prop :=
  (kb.paths (s.store.ident e.source).tag (s.store.ident e.target).tag).filter
    (dataFor defaults e).constraint.permits = [path]

theorem Chosen.chain {kb : KnowledgeBase} {defaults : EdgeData} {s : Site}
    {e : Digraph.Edge Handle Payload} {path : List TypeTag} (h : kb.Chosen defaults s e path) :
    kb.Chain (s.store.ident e.source).tag (s.store.ident e.target).tag path := by
  have hmem : path ∈ [path] := List.mem_singleton_self path
  rw [← h] at hmem
  exact chain_of_mem_paths (List.mem_filter.1 hmem).1

section Changes

variable (kb : KnowledgeBase) (defaults : EdgeData) (s : Site)
  (l : List (Digraph.Edge Handle Payload))

/-- The dependencies among `l` whose only chain has intermediates. -/
def removed : Set (String × String) :=
  {x | ∃ e ∈ l, ∃ path, Chosen kb defaults s e path ∧ intermediates path ≠ [] ∧
    x = (s.key e.source, s.key e.target)}

/-- The pairs of texts that walks along the chains of dependencies among `l` join. -/
def joined : Set (String × String) :=
  {x | ∃ e ∈ l, ∃ path, Chosen kb defaults s e path ∧
    x ∈ s.steps (s.key e.source) (kb.route (s.key e.source) (s.key e.target) path).tail}

/-- The pairs of neighbours on the chains of dependencies among `l`. -/
def added : Set (String × String) :=
  {x | ∃ e ∈ l, ∃ path, Chosen kb defaults s e path ∧
    x ∈ neighbours (kb.route (s.key e.source) (s.key e.target) path)}

/-- The zero values of the intermediates on the chains of dependencies among `l`. -/
def made : Set String :=
  {x | ∃ e ∈ l, ∃ path, Chosen kb defaults s e path ∧ ∃ t ∈ intermediates path, x = kb.zeroKey t}

end Changes

section Filed

variable {kb : KnowledgeBase} {defaults : EdgeData} {s : Site}
  {l : List (Digraph.Edge Handle Payload)}

/-- Where resources are filed under their own texts, walks join the neighbours on the chains. -/
theorem joined_eq_added (hs : s.Filed) : kb.joined defaults s l = kb.added defaults s l := by
  simp only [joined, added, hs.steps_eq, ← route_eq_cons]

/-- The texts on a chain that are not those of its ends are those of zero values. -/
theorem ends_added (hs : s.Filed) (hl : ∀ e ∈ l, e ∈ s.dependencies) :
    s.graph.vertexSet ∪ ends (proper (kb.added defaults s l)) =
      s.graph.vertexSet ∪ kb.made defaults s l := by
  have hfiled : ∀ e ∈ l,
      s.key e.source ∈ s.graph.vertexSet ∧ s.key e.target ∈ s.graph.vertexSet := by
    intro e he
    obtain ⟨hsource, htarget⟩ := hs.get?_of_mem_dependencies (hl e he)
    exact ⟨Digraph.contains_iff.2 ⟨_, hsource⟩, Digraph.contains_iff.2 ⟨_, htarget⟩⟩
  ext x
  constructor
  · rintro (hx | ⟨⟨a, b⟩, ⟨⟨e, he, path, hpath, hab⟩, -⟩, hend⟩)
    · exact Or.inl hx
    · have hroute := Digraph.mem_of_mem_ends_neighbours ⟨(a, b), hab, hend⟩
      rcases mem_route hroute with rfl | rfl | hmade
      · exact Or.inl (hfiled e he).1
      · exact Or.inl (hfiled e he).2
      · exact Or.inr ⟨e, he, path, hpath, hmade⟩
  · rintro (hx | ⟨e, he, path, hpath, t, ht, rfl⟩)
    · exact Or.inl hx
    · have hroute := kb.zeroKey_mem_route (s.key e.source) (s.key e.target) ht
      rw [route_eq_cons] at hroute
      rcases Digraph.eq_or_mem_ends_of_mem hroute with heq | ⟨ab, ⟨hab, hne⟩, hend⟩
      · exact Or.inl (heq ▸ (hfiled e he).1)
      · rw [← route_eq_cons] at hab
        exact Or.inr ⟨ab, ⟨⟨e, he, path, hpath, hab⟩, hne⟩, hend⟩

end Filed

/-! ### The links of a chain -/

namespace Linking

variable {kb : KnowledgeBase} {K : Resource → Prop} {s : Site}

/-- One link. -/
theorem expandHop (hkb : kb.Linking) {data : EdgeData} {p : Pass} {l : Link}
    {previous next : Handle} (hl : ∃ e, kb.entry? l = some e) (hp : s.Extends K p.site)
    (hprevious : p.site.store.Holds K previous) (hnext : p.site.store.Holds K next)
    (hquiet : (kb.expandHop data p l previous next).Quiet) :
    Site.Round K s p.site (kb.expandHop data p l previous next).site ∅
      (proper {(p.site.key previous, p.site.key next)}) := by
  obtain ⟨e, he⟩ := hl
  rw [KnowledgeBase.expandHop, he, Option.bind_some, hkb.links l e he] at hquiet ⊢
  dsimp only [Expansion.link, Script.liftFault] at hquiet ⊢
  cases hresult : ((p.note .expand ⟨previous, next, data⟩).site.depend previous next {}).2 with
  | error f =>
      rw [hresult] at hquiet
      exact absurd hquiet (Pass.not_quiet_fail _ rfl)
  | ok u =>
      -- the call stands in the journal, which the graph does not show
      have hnoted : s.Extends K (p.note .expand ⟨previous, next, data⟩).site :=
        hp.of_get?_eq rfl fun _ => rfl
      exact (hnoted.depend hprevious hnext (Prod.ext rfl hresult)).of_graph_eq rfl
        (Store.Grows.refl _)

/-- Links one after another. -/
theorem expandHops (hkb : kb.Linking) {data : EdgeData} {l : List (Link × Handle)} {p : Pass}
    {previous : Handle} (hl : ∀ hop ∈ l, ∃ e, kb.entry? hop.1 = some e) (hs : s.Housed K)
    (hp : s.Extends K p.site) (hprevious : p.site.store.Holds K previous)
    (hnext : ∀ hop ∈ l, p.site.store.Holds K hop.2)
    (hquiet : (kb.expandHops data p previous l).Quiet) :
    Site.Round K s p.site (kb.expandHops data p previous l).site ∅
      (proper (s.steps (p.site.key previous) (l.map fun hop => p.site.key hop.2))) := by
  induction l generalizing p previous with
  | nil =>
      refine (Site.Round.refl hp).congr rfl ?_
      simp [Site.steps, proper]
  | cons hop l ih =>
      obtain ⟨hentry, hentries⟩ := List.forall_mem_cons.1 hl
      obtain ⟨hhop, hhops⟩ := List.forall_mem_cons.1 hnext
      have hfirst := hkb.expandHop hentry hp hprevious hhop
        (hquiet.of_prefix (faults_expandHops data l _ _))
      rw [KnowledgeBase.expandHops] at hquiet ⊢
      generalize kb.expandHop data p hop.1 previous hop.2 = q at hfirst hquiet ⊢
      -- the walk goes on from what the graph has under the text of the last resource
      obtain ⟨hholds, hkey⟩ := hfirst.after.next hs (hfirst.grows.holds hhop)
      have hrest := ih hentries hfirst.after hholds
        (fun hop' h => hfirst.grows.holds (hhops hop' h)) hquiet
      have hkeys : (l.map fun hop' => q.site.key hop'.2) = l.map fun hop' => p.site.key hop'.2 :=
        List.map_congr_left fun hop' h => hfirst.grows.key_eq (hhops hop' h).1
      have hhopkey : q.site.key hop.2 = p.site.key hop.2 := hfirst.grows.key_eq hhop.1
      refine (hfirst.andAdd hrest).congr rfl ?_
      rw [hkey, hhopkey, hkeys, List.map_cons, Site.steps, proper_union]

/-- The texts that the links of a chain lead to. -/
theorem map_zip_hops {source destination : TypeTag} {path : List TypeTag}
    (hpath : kb.Chain source destination path) {created : List Handle} (target : Handle)
    {key : Handle → String} (hcreated : created.map key = (intermediates path).map kb.zeroKey)
    (x : String) :
    ((hops path).zip (created ++ [target])).map (fun hop => key hop.2) =
      (kb.route x (key target) path).tail := by
  rcases hpath.eq_singleton_or with hsingle | hends
  · rw [hsingle]
    rfl
  · have hlength : created.length = (intermediates path).length := by
      simpa using congrArg List.length hcreated
    have hsnd : ((hops path).zip (created ++ [target])).map Prod.snd = created ++ [target] := by
      refine List.map_snd_zip ?_
      rw [length_hops, hends, List.length_append, List.length_append, hlength]
      simp
    rw [route_of_ends hends, ← hcreated, ← List.map_singleton, List.cons_append, List.tail_cons,
      ← List.map_append, ← hsnd, List.map_map, hsnd]
    rfl

/-- The links of a chain, given resources for the types between its ends. -/
theorem expandChain (hkb : kb.Linking) {data : EdgeData} {p : Pass} {path : List TypeTag}
    {source target : Handle} {created : List Handle} {a b : TypeTag} (hpath : kb.Chain a b path)
    (hcreated : created.map p.site.key = (intermediates path).map kb.zeroKey) (hs : s.Housed K)
    (hp : s.Extends K p.site) (hholds : ∀ h ∈ created, p.site.store.Holds K h)
    (hsource : p.site.store.Holds K source) (htarget : p.site.store.Holds K target)
    (hquiet : (kb.expandHops data p source ((hops path).zip (created ++ [target]))).Quiet) :
    Site.Round K s p.site
      (kb.expandHops data p source ((hops path).zip (created ++ [target]))).site ∅
      (proper (s.steps (p.site.key source)
        (kb.route (p.site.key source) (p.site.key target) path).tail)) := by
  have hentries : ∀ hop ∈ (hops path).zip (created ++ [target]), ∃ e, kb.entry? hop.1 = some e :=
    fun hop hhop => hpath.exists_entry (List.of_mem_zip hhop).1
  have hstops : ∀ hop ∈ (hops path).zip (created ++ [target]), p.site.store.Holds K hop.2 := by
    intro hop hhop
    rcases List.mem_append.1 (List.of_mem_zip hhop).2 with hnew | htop
    · exact hholds _ hnew
    · exact List.mem_singleton.1 htop ▸ htarget
  rw [← map_zip_hops hpath target hcreated (p.site.key source)]
  exact hkb.expandHops hentries hs hp hsource hstops hquiet

/-- The links of a chain, after the dependency that the chain stands for has gone. -/
theorem expandAlong (hkb : kb.Linking) {data : EdgeData} {p : Pass} {path : List TypeTag}
    {source target : Handle} {a b : TypeTag} (hpath : kb.Chain a b path) (hs : s.Housed K)
    (hp : s.Extends K p.site) (hK : ∀ t ∈ intermediates path, K (kb.blank t))
    (hsource : p.site.store.Holds K source) (htarget : p.site.store.Holds K target)
    (hquiet : (kb.expandAlong data p path source target
      ((intermediates path).map kb.blank)).Quiet) :
    Site.Round K s p.site
      (kb.expandAlong data p path source target ((intermediates path).map kb.blank)).site
      {x | intermediates path ≠ [] ∧ x = (p.site.key source, p.site.key target)}
      (proper (s.steps (p.site.key source)
        (kb.route (p.site.key source) (p.site.key target) path).tail)) := by
  by_cases hmids : intermediates path = []
  · -- a direct link takes the place of no dependency
    rw [hmids, List.map_nil, expandAlong_nil] at hquiet ⊢
    have hcreated : [].map p.site.key = (intermediates path).map kb.zeroKey := by
      rw [hmids]
      rfl
    refine (hkb.expandChain hpath hcreated hs hp (fun h hh => absurd hh List.not_mem_nil) hsource
      htarget hquiet).congr ?_ rfl
    ext x
    simp
  · have hbetween : (intermediates path).map kb.blank ≠ [] := mt List.map_eq_nil_iff.1 hmids
    have hgrows := p.site.store.grows_allocateAll ((intermediates path).map kb.blank)
    have hnew : ∀ h ∈ (p.site.store.allocateAll ((intermediates path).map kb.blank)).1,
        (p.site.store.allocateAll ((intermediates path).map kb.blank)).2.Holds K h :=
      fun h hh => Store.holds_of_mem_allocateAll (List.forall_mem_map.2 hK) hh
    have hkeys := p.site.store.map_key_allocateAll ((intermediates path).map kb.blank)
    rw [List.map_map] at hkeys
    cases hrelease : Site.release
        { p.site with store := (p.site.store.allocateAll ((intermediates path).map kb.blank)).2 }
        ((p.site.store.allocateAll ((intermediates path).map kb.blank)).2.ident source)
        ((p.site.store.allocateAll ((intermediates path).map kb.blank)).2.ident target) with
    | mk t outcome =>
        cases outcome with
        | error f =>
            -- the dependency goes first, which cannot fail in a pass without reports
            rw [expandAlong_of_release_error hbetween hrelease] at hquiet
            have hf := Site.eq_of_release_eq_error hrelease
            exact absurd hquiet (Pass.not_quiet_fail _ (by rw [hf]; rfl))
        | ok u =>
            rw [expandAlong_of_release_ok hbetween hrelease] at hquiet ⊢
            have hgone := (hp.grow hgrows).release hrelease
            have hall := hgrows.trans hgone.grows
            have hcreated := (List.map_congr_left fun h hh =>
              hgone.grows.key_eq (hnew h hh).1).trans hkeys
            have hchain := hkb.expandChain (p := { p with site := t }) hpath hcreated hs
              hgone.after (fun h hh => hgone.grows.holds (hnew h hh)) (hall.holds hsource)
              (hall.holds htarget) hquiet
            have hsourcekey : t.key source = p.site.key source := hall.key_eq hsource.1
            have htargetkey : t.key target = p.site.key target := hall.key_eq htarget.1
            rw [hsourcekey, htargetkey] at hchain
            refine Site.Round.congr (u := p.site) ((hgone.andAdd hchain).of_graph_eq rfl hgrows) ?_
              (Set.empty_union _)
            have hpair := congrArg₂ Prod.mk (hgrows.key_eq hsource.1) (hgrows.key_eq htarget.1)
            ext x
            rw [Set.mem_singleton_iff, Set.mem_ofPred_eq]
            exact ⟨fun hx => ⟨hmids, hx.trans hpair⟩, fun hx => hx.2.trans hpair.symm⟩

/-- One dependency. -/
theorem expandEdge (hkb : kb.Linking) {defaults : EdgeData} {p : Pass}
    {e : Digraph.Edge Handle Payload} (hs : s.Housed K) (hp : s.Extends K p.site)
    (hK : ∀ path, kb.Chosen defaults s e path → ∀ t ∈ intermediates path, K (kb.blank t))
    (hsource : s.store.Holds K e.source) (htarget : s.store.Holds K e.target)
    (hquiet : (kb.expandEdge defaults p e).Quiet) :
    Site.Round K s p.site (kb.expandEdge defaults p e).site (kb.removed defaults s [e])
      (proper (kb.joined defaults s [e])) := by
  have hsourceident := hp.grows.ident_eq hsource.1
  have htargetident := hp.grows.ident_eq htarget.1
  cases hchoose : kb.choose (p.site.store.ident e.source) (p.site.store.ident e.target)
      (dataFor defaults e).constraint with
  | error f =>
      rw [expandEdge_of_choose_error hchoose] at hquiet
      exact absurd hquiet (Pass.not_quiet_fail _ (parts_of_choose_eq_error hchoose))
  | ok chain =>
      cases chain with
      | none =>
          -- no chain is the only one, so both sets are empty
          have hnot (path : List TypeTag) : ¬ kb.Chosen defaults s e path := by
            intro hpath
            rw [hsourceident, htargetident, choose_eq_some_iff.2 hpath] at hchoose
            cases hchoose
          rw [expandEdge_of_choose_none hchoose]
          refine (Site.Round.refl hp).congr ?_ ?_
          · simp [removed, hnot]
          · simp [joined, hnot, proper]
      | some path =>
          have hpath : kb.Chosen defaults s e path := by
            rw [hsourceident, htargetident] at hchoose
            exact choose_eq_some_iff.1 hchoose
          -- the chain is the only one, so both sets are those of the chain
          have honly (path' : List TypeTag) : kb.Chosen defaults s e path' ↔ path' = path := by
            rw [Chosen, hpath, List.cons_eq_cons]
            simp [eq_comm]
          cases hcreate : (intermediates path).mapM kb.create with
          | error f =>
              rw [expandEdge_of_create_error hchoose hcreate] at hquiet
              exact absurd hquiet (Pass.not_quiet_fail _ (parts_of_mapM_create_eq_error hcreate))
          | ok between =>
              rw [expandEdge_of_create hchoose hcreate, eq_of_mapM_create_eq_ok hcreate] at hquiet ⊢
              have hround := hkb.expandAlong (p := p.report (shapeFaults p.site e)) hpath.chain hs
                hp (hK path hpath) (hp.grows.holds hsource) (hp.grows.holds htarget) hquiet
              have hsourcekey : p.site.key e.source = s.key e.source := hp.grows.key_eq hsource.1
              have htargetkey : p.site.key e.target = s.key e.target := hp.grows.key_eq htarget.1
              rw [Pass.site_report, hsourcekey, htargetkey] at hround
              refine hround.congr ?_ ?_
              · ext x
                simp [removed, honly]
              · simp [joined, honly]

end Linking

end KnowledgeBase

end Groundwork
