/-
What a site can become.

A site is changed by its own operations, by behaviours that change its resources, and by expansion,
which calls behaviours that use the operations in turn.  A copy of a graph can be put aside and
brought back later.  Whatever a site goes through in this way, no dependency closes a cycle, and
so the resources can always be sorted.

Main definitions:

* `Groundwork.KnowledgeBase.Preserves` — a property of sites that no part of an expansion breaks;
* `Groundwork.Site.Reaches`, `Groundwork.Site.Reachable` — the sites that arise from another one,
  and from one without vertices.

Main results:

* `Groundwork.KnowledgeBase.Preserves.expandPass` — an expansion keeps such a property;
* `Groundwork.Site.Reaches.edits` — the graph changes by edits only;
* `Groundwork.Site.Reachable.acyclic_and_sorted` — **no cycle arises, and sorting always succeeds**.
-/
import Groundwork.Knowledge.Expansion
import Groundwork.Proofs.Digraph.Ordering
import Groundwork.Proofs.Resource.Editing

set_option relaxedAutoImplicit false
set_option autoImplicit false

namespace Groundwork

open Groundwork.Digraph (Edit Edits map_get?_eq_map_some)

/-! ### What an expansion keeps -/

namespace KnowledgeBase

/-- No part of an expansion breaks the property `P` of sites: not the allocation of resources, an
entry in the journal, the removal of a dependency, or a behaviour of the knowledge base. -/
structure Preserves (kb : KnowledgeBase) (P : Site → Prop) : Prop where
  /-- New resources keep the property. -/
  allocate : ∀ s l, P s → P { s with store := (s.store.allocateAll l).2 }
  /-- An entry in the journal keeps the property. -/
  record : ∀ s e, P s → P { s with journal := s.journal ++ [e] }
  /-- The removal of a dependency keeps the property. -/
  release : ∀ s source target, P s → P (s.release source target).1
  /-- The behaviours of the knowledge base keep the property. -/
  behave : ∀ l e behaviour, kb.entry? l = some e → e.expand = some behaviour →
    ∀ source target data s, P s → P (behaviour source target data s).1

namespace Preserves

variable {kb : KnowledgeBase} {P : Site → Prop}

theorem expandHop (hkb : kb.Preserves P) (data : EdgeData) (p : Pass) (l : Link)
    (previous next : Handle) (h : P p.site) : P (kb.expandHop data p l previous next).site := by
  rw [KnowledgeBase.expandHop]
  split
  case h_1 => exact h
  case h_2 behaviour hentry =>
      obtain ⟨e, hl, he⟩ := Option.bind_eq_some_iff.1 hentry
      have hnote : P (p.note .expand ⟨previous, next, data⟩).site := hkb.record p.site _ h
      have hsite := hkb.behave l e behaviour hl he previous next data _ hnote
      dsimp only
      split
      · exact hsite
      · exact hsite

theorem expandHops (hkb : kb.Preserves P) (data : EdgeData) (l : List (Link × Handle)) (p : Pass)
    (previous : Handle) (h : P p.site) : P (kb.expandHops data p previous l).site := by
  induction l generalizing p previous with
  | nil => exact h
  | cons hop l ih => exact ih _ _ (hkb.expandHop data p hop.1 previous hop.2 h)

theorem expandAlong (hkb : kb.Preserves P) (data : EdgeData) (p : Pass) (path : List TypeTag)
    (source target : Handle) (between : List Resource) (h : P p.site) :
    P (kb.expandAlong data p path source target between).site := by
  have hstore := hkb.allocate p.site between h
  rw [KnowledgeBase.expandAlong]
  dsimp only
  split
  · exact hkb.expandHops data _ _ source hstore
  · have hrelease := hkb.release _ ((p.site.store.allocateAll between).2.ident source)
      ((p.site.store.allocateAll between).2.ident target) hstore
    split
    case h_1 site heq =>
        rw [heq] at hrelease
        exact hkb.expandHops data _ _ source hrelease
    case h_2 site f heq =>
        rw [heq] at hrelease
        exact hrelease

theorem dataOf_site (p : Pass) (defaults : EdgeData) (e : Digraph.Edge Handle Payload) :
    (p.dataOf defaults e).1.site = p.site := by
  rw [Pass.dataOf]
  split <;> rfl

theorem expandEdge (hkb : kb.Preserves P) (defaults : EdgeData) (p : Pass)
    (e : Digraph.Edge Handle Payload) (h : P p.site) : P (kb.expandEdge defaults p e).site := by
  have hdata : P (p.dataOf defaults e).1.site := (dataOf_site p defaults e).symm ▸ h
  rw [KnowledgeBase.expandEdge]
  dsimp only
  split
  · exact hdata
  · exact hdata
  · split
    · exact hdata
    · exact hkb.expandAlong _ _ _ _ _ _ hdata

/-- An expansion keeps what none of its parts breaks. -/
theorem expandPass (hkb : kb.Preserves P) (defaults : EdgeData) (s : Site) (h : P s) :
    P (kb.expandPass defaults s).site := by
  have hfold : ∀ (l : List (Digraph.Edge Handle Payload)) (p : Pass), P p.site →
      P (l.foldl (kb.expandEdge defaults) p).site := by
    intro l
    induction l with
    | nil => exact fun p hp => hp
    | cons e l ih => exact fun p hp => ih _ (hkb.expandEdge defaults p e hp)
  exact hfold _ _ h

end Preserves

end KnowledgeBase

/-! ### Histories -/

namespace Site

/-- The sites that arise from another one.  Behaviours may do whatever can be done with a site,
and calls of them may fail. -/
inductive Reaches : Site → Site → Prop
  /-- Nothing happens. -/
  | refl (s : Site) : Reaches s s
  /-- Resources are made or changed in their place. -/
  | mutate {s t : Site} (store : Store) : Reaches s t → Reaches s { t with store }
  /-- A copy of the graph, made at another time, takes the place of the graph. -/
  | copy {s t u : Site} : Reaches s t → Reaches s u →
      Reaches s { t with graph := u.graph, observed := u.observed }
  | insert {s t : Site} (h : Handle) : Reaches s t → Reaches s (t.insert h).1
  | erase {s t : Site} (i : Ident) : Reaches s t → Reaches s (t.erase i).1
  | depend {s t : Site} (source target : Handle) (p : Properties Payload) :
      Reaches s t → Reaches s (t.depend source target p).1
  | dependByIdent {s t : Site} (source target : Ident) :
      Reaches s t → Reaches s (t.dependByIdent source target).1
  | dependDeclared {s t : Site} (source : Handle) :
      Reaches s t → Reaches s (t.dependDeclared source).1
  | release {s t : Site} (source target : Ident) :
      Reaches s t → Reaches s (t.release source target).1
  | replace {s t : Site} (old : Ident) (new : Handle) :
      Reaches s t → Reaches s (t.replace old new).1
  /-- Dependencies are expanded by behaviours that do such things in turn. -/
  | expand {s t : Site} (kb : KnowledgeBase) (defaults : EdgeData) : Reaches s t →
      (∀ l e behaviour, kb.entry? l = some e → e.expand = some behaviour →
        ∀ source target data u, Reaches u (behaviour source target data u).1) →
      Reaches s (kb.expand defaults t).1

/-- The site arises from one whose graph has no vertices. -/
def Reachable (s : Site) : Prop := ∃ start : Site, start.graph = {} ∧ Reaches start s

/-- Whatever happens to a site, its graph changes by edits only. -/
theorem Reaches.edits {s t : Site} (h : Reaches s t) : Edits s.graph t.graph := by
  induction h with
  | refl s => exact Edits.refl _
  | mutate store _ ih => exact ih
  | copy _ _ _ ih => exact ih
  | insert h _ ih => exact ih.trans (edits_insert _ h)
  | erase i _ ih => exact ih.trans (edits_erase _ i)
  | depend source target p _ ih => exact ih.trans (edits_depend _ source target p)
  | dependByIdent source target _ ih => exact ih.trans (edits_dependByIdent _ source target)
  | dependDeclared source _ ih => exact ih.trans (edits_dependDeclared _ source)
  | release source target _ ih => exact ih.trans (edits_release _ source target)
  | replace old new _ ih => exact ih.trans (edits_replace _ old new)
  | @expand s t kb defaults _ _ ih ihbehave =>
      -- a behaviour starts from wherever the expansion has come, so its edits follow those so far
      have hkb : kb.Preserves fun u => Edits s.graph u.graph :=
        { allocate := fun _ _ hu => hu
          record := fun _ _ hu => hu
          release := fun u source target hu => hu.trans (edits_release u source target)
          behave := fun l e behaviour hl he source target data u hu =>
            hu.trans (ihbehave l e behaviour hl he source target data u) }
      exact hkb.expandPass defaults t ih

namespace Reachable

variable {s : Site}

theorem wellFormed (h : s.Reachable) : s.graph.WellFormed := by
  obtain ⟨start, hempty, hreach⟩ := h
  exact hreach.edits.wellFormed (hempty ▸ Digraph.wellFormed_empty)

theorem acyclic (h : s.Reachable) : s.graph.Acyclic := by
  obtain ⟨start, hempty, hreach⟩ := h
  exact hreach.edits.acyclic (hempty ▸ Digraph.wellFormed_empty) (hempty ▸ Digraph.acyclic_empty)

/-- **No history closes a cycle, and sorting always succeeds.**  Both sorts list the value of each
vertex once; the first has the source of a dependency before its target, the second after it. -/
theorem acyclic_and_sorted (h : s.Reachable) :
    s.graph.Acyclic ∧ (∀ x, ¬ s.graph.Adj x x) ∧
      ∃ order sorted, order.Perm s.graph.ids ∧ order.Nodup ∧
        order.map s.graph.get? = sorted.map some ∧
        s.topologicalSort = .ok sorted ∧ s.deploymentOrder = .ok sorted.reverse ∧
        ∀ x y, s.graph.Adj x y → [x, y].Sublist order ∧ [y, x].Sublist order.reverse := by
  obtain ⟨order, horders, hsort⟩ := h.acyclic.exists_orders h.wellFormed
  have hids : ∀ x ∈ order, s.graph.contains x = true := fun x hx =>
    Digraph.mem_ids_iff.1 (horders.perm.mem_iff.1 hx)
  have htop : s.topologicalSort = .ok (order.filterMap s.graph.get?) := by
    rw [topologicalSort, hsort]
    rfl
  have hrev : s.deploymentOrder = .ok (order.filterMap s.graph.get?).reverse := by
    rw [deploymentOrder, htop]
    rfl
  refine ⟨h.acyclic, fun x hx => h.acyclic.ne_of_adj hx rfl, order, _, horders.perm,
    horders.perm.nodup_iff.2 s.graph.vertices.keys_nodup, map_get?_eq_map_some hids, htop, hrev,
    fun x y hxy => ⟨horders.before x y hxy, ?_⟩⟩
  simpa using (horders.before x y hxy).reverse

/-- Three resources, the first of which depends on the second and the second on the third. -/
def cascade : Site :=
  let part (name : String) : Resource :=
    { ident := { provider := "test", kind := "part", scope := "zone", name } }
  let start : Site := { store := ⟨#[part "x", part "y", part "z"]⟩ }
  ((start.depend ⟨0⟩ ⟨1⟩ {}).1.depend ⟨1⟩ ⟨2⟩ {}).1

/-- A dependency of the last resource on the first is refused, and the site can still be sorted. -/
theorem acyclic_and_sorted_cascade :
    let s := (cascade.depend ⟨2⟩ ⟨0⟩ {}).1
    s.Reachable ∧ s.graph.Acyclic ∧ s.graph.size = 2 ∧
      ∃ sorted, s.topologicalSort = .ok sorted := by
  have hreach : (cascade.depend ⟨2⟩ ⟨0⟩ {}).1.Reachable :=
    ⟨_, rfl, (((Reaches.refl _).depend ⟨0⟩ ⟨1⟩ {}).depend ⟨1⟩ ⟨2⟩ {}).depend ⟨2⟩ ⟨0⟩ {}⟩
  obtain ⟨hacyc, -, -, sorted, -, -, -, hsort, -⟩ := acyclic_and_sorted hreach
  exact ⟨hreach, hacyc, by decide +kernel, sorted, hsort⟩

end Reachable

end Site

end Groundwork
