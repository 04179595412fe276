/-
Resources that get another identity while they are filed.

A graph files a resource under the text that its identity has when it comes in, and behaviours may
give it another identity in its place at any time.  From then on the graph has it where nobody who
asks for its present text looks.  A resource whose text has stayed as it was before it was first
filed is always found, whatever happens to others.

Main definitions:

* `Groundwork.Site.Evolves` — the sites that arise from another one by operations, and by changes
  of the store of some sort;
* `Groundwork.Site.Kept` — a property of sites that no part of such a history breaks;
* `Groundwork.Site.Arises` — the sites that arise from one without vertices;
* `Groundwork.Site.FiledAt` — a resource is filed under one text at most, which is its own;
* `Groundwork.Site.Unrenamed` — a resource has kept its text since it was not filed.

Main results:

* `Groundwork.Site.Evolves.keeps` — what no part breaks, no history breaks;
* `Groundwork.Site.Evolves.expand`, `Groundwork.Site.Evolves.configure`,
  `Groundwork.Site.Reachable.arises` — expansions and configurations are such histories;
* `Groundwork.Site.Arises.unrenamed_found` — **a resource that has kept its text is found under it
  and nowhere else**, and so are the dependencies between such resources;
* `Groundwork.Site.Arises.not_forall_found` — a resource that has not kept it may be lost.
-/
import Groundwork.Proofs.Knowledge.Calls
import Groundwork.Proofs.Knowledge.History

set_option relaxedAutoImplicit false
set_option autoImplicit false

namespace Groundwork.Site

/-! ### Histories -/

/-- The sites that arise from another one while resources change only as `M` allows.  Each part is
something that can be done with a site, by whoever holds it or by a behaviour. -/
inductive Evolves (M : Store → Store → Prop) : Site → Site → Prop
  | refl (s : Site) : Evolves M s s
  /-- Resources are changed in their place. -/
  | mutate {s t : Site} (store : Store) :
      Evolves M s t → M t.store store → Evolves M s { t with store }
  | allocate {s t : Site} (l : List Resource) :
      Evolves M s t → Evolves M s { t with store := (t.store.allocateAll l).2 }
  | record {s t : Site} (journal : List Event) : Evolves M s t → Evolves M s { t with journal }
  /-- A copy of the graph, made at another time, takes the place of the graph. -/
  | copy {s t u : Site} : Evolves M s t → Evolves M s u →
      Evolves M s { t with graph := u.graph, observed := u.observed }
  | insert {s t : Site} (h : Handle) : Evolves M s t → Evolves M s (t.insert h).1
  | erase {s t : Site} (i : Ident) : Evolves M s t → Evolves M s (t.erase i).1
  | depend {s t : Site} (source target : Handle) (p : Properties Payload) :
      Evolves M s t → Evolves M s (t.depend source target p).1
  | dependByIdent {s t : Site} (source target : Ident) :
      Evolves M s t → Evolves M s (t.dependByIdent source target).1
  | dependDeclared {s t : Site} (source : Handle) :
      Evolves M s t → Evolves M s (t.dependDeclared source).1
  | release {s t : Site} (source target : Ident) :
      Evolves M s t → Evolves M s (t.release source target).1
  | replace {s t : Site} (old : Ident) (new : Handle) :
      Evolves M s t → Evolves M s (t.replace old new).1

/-- Nothing breaks the property `P` of sites: not the changes that all operations are made of, new
resources, entries in the journal, copies of the graph, or changes of the store that `M` allows. -/
structure Kept (M : Store → Store → Prop) (P : Site → Prop) : Prop extends Stable P where
  mutate : ∀ s store, P s → M s.store store → P { s with store }
  record : ∀ s journal, P s → P { s with journal }
  allocate : ∀ s l, P s → P { s with store := (s.store.allocateAll l).2 }
  copy : ∀ s u, P s → P u → P { s with graph := u.graph, observed := u.observed }

namespace Evolves

variable {M : Store → Store → Prop} {P : Site → Prop} {s t u : Site}

theorem trans (hst : Evolves M s t) (htu : Evolves M t u) : Evolves M s u := by
  induction htu with
  | refl => exact hst
  | mutate store _ hM ih => exact ih.mutate store hM
  | allocate l _ ih => exact ih.allocate l
  | record journal _ ih => exact ih.record journal
  | copy _ _ ih ih' => exact ih.copy ih'
  | insert h _ ih => exact ih.insert h
  | erase i _ ih => exact ih.erase i
  | depend source target p _ ih => exact ih.depend source target p
  | dependByIdent source target _ ih => exact ih.dependByIdent source target
  | dependDeclared source _ ih => exact ih.dependDeclared source
  | release source target _ ih => exact ih.release source target
  | replace old new _ ih => exact ih.replace old new

/-- **What no part breaks, no history breaks.** -/
theorem keeps (h : Evolves M s t) (hP : Kept M P) (hs : P s) : P t := by
  induction h with
  | refl => exact hs
  | mutate store _ hM ih => exact hP.mutate _ store ih hM
  | allocate l _ ih => exact hP.allocate _ l ih
  | record journal _ ih => exact hP.record _ journal ih
  | copy _ _ ih ih' => exact hP.copy _ _ ih ih'
  | insert h _ ih => exact hP.insert _ h ih
  | erase i _ ih => exact hP.erase _ i ih
  | depend source target p _ ih => exact hP.toStable.depend ih source target p
  | dependByIdent source target _ ih => exact hP.toStable.dependByIdent ih source target
  | dependDeclared source _ ih => exact hP.toStable.dependDeclared ih source
  | release source target _ ih => exact hP.release _ source target ih
  | replace old new _ ih => exact hP.toStable.replace ih old new

end Evolves

/-! ### Expansions and configurations as histories -/

section Passes

open KnowledgeBase

variable {M : Store → Store → Prop} {kb : KnowledgeBase} {s t : Site}

/-- The links of a chain are realised in a history if each of them is. -/
theorem Evolves.walk {data : EdgeData} {source : Handle} {stops : List (Link × Handle)}
    {visits : List Visit} (h : Walk kb data s source stops visits t)
    (hvisits : ∀ v ∈ visits, Evolves M v.before v.after) : Evolves M s t := by
  induction h with
  | nil s source => exact Evolves.refl s
  | cons hv hwalk ih =>
      have hfirst := hvisits _ List.mem_cons_self
      exact hfirst.trans (ih fun v hv => hvisits v (List.mem_cons_of_mem _ hv))

/-- Between the calls of an expansion there are new resources, and dependencies that are removed. -/
theorem Evolves.taken {defaults : EdgeData} {v : Turn} (h : v.Taken kb defaults)
    (hvisits : ∀ w ∈ v.visits, Evolves M w.before w.after) : Evolves M v.before v.after := by
  have hsupplied (path : List TypeTag) : Evolves M v.before (v.supplied kb path) :=
    (Evolves.refl v.before).allocate _
  cases h with
  | unchosen _ hafter =>
      rw [hafter]
      exact Evolves.refl v.before
  | unmade _ _ _ _ _ hafter =>
      rw [hafter]
      exact Evolves.refl v.before
  | gone path _ _ _ _ hafter =>
      rw [hafter]
      exact hsupplied path
  | walked path _ _ _ hwalk =>
      have hopened : Evolves M v.before (v.opened kb path) := by
        rw [Turn.opened]
        split
        · exact hsupplied path
        · exact (hsupplied path).release _ _
      exact hopened.trans (Evolves.walk hwalk hvisits)

theorem Evolves.tour {defaults : EdgeData} {l : List (Digraph.Edge Handle Payload)}
    {turns : List Turn} (h : Tour kb defaults s l turns t)
    (hvisits : ∀ v ∈ turns, ∀ w ∈ v.visits, Evolves M w.before w.after) : Evolves M s t := by
  induction h with
  | nil s => exact Evolves.refl s
  | cons hv htour ih =>
      have hfirst := Evolves.taken hv (hvisits _ List.mem_cons_self)
      exact hfirst.trans (ih fun v hv => hvisits v (List.mem_cons_of_mem _ hv))

/-- **An expansion is a history if each call in it is**; what its behaviours would do when called
otherwise does not matter. -/
theorem Evolves.expand (kb : KnowledgeBase) (defaults : EdgeData) (s : Site)
    (hvisits : ∀ turns t, Tour kb defaults s s.dependencies turns t →
      ∀ v ∈ turns, ∀ w ∈ v.visits, Evolves M w.before w.after) :
    Evolves M s (kb.expand defaults s).1 := by
  obtain ⟨turns, t, htour⟩ := Tour.exists_of_edges kb defaults s s.dependencies
  have hsite : (kb.expand defaults s).1 = t := (htour.sound (p := { site := s }) rfl).1
  rw [hsite]
  exact Evolves.tour htour (hvisits turns t htour)

/-- A configuration changes resources only, and each of its calls changes them as `M` allows. -/
theorem Evolves.configure (h : Evolves M s t) (kb : KnowledgeBase) (defaults : EdgeData)
    (hbehave : ∀ l e behaviour, kb.entry? l = some e → e.configure = some behaviour →
      ∀ source target data store, M store (behaviour source target data store).1) :
    Evolves M s (kb.configure defaults t).1 := by
  have hedge (p : Pass) (e : Digraph.Edge Handle Payload) (hp : Evolves M s p.site) :
      Evolves M s (kb.configureEdge defaults p e).site := by
    have hdata : Evolves M s (p.dataOf defaults e).1.site :=
      (Preserves.dataOf_site p defaults e).symm ▸ hp
    rw [configureEdge]
    dsimp only
    split
    case h_1 => exact hdata
    case h_2 behaviour hentry =>
        obtain ⟨entry, hl, he⟩ := Option.bind_eq_some_iff.1 hentry
        have hnote : Evolves M s ((p.dataOf defaults e).1.note .configure
            ⟨e.source, e.target, (p.dataOf defaults e).2⟩).site := hdata.record _
        have hcall := hnote.mutate _ (hbehave _ entry behaviour hl he e.source e.target
          (p.dataOf defaults e).2 (p.dataOf defaults e).1.site.store)
        split
        · exact hcall
        · exact hcall
  have hfold : ∀ (l : List (Digraph.Edge Handle Payload)) (p : Pass), Evolves M s p.site →
      Evolves M s (l.foldl (kb.configureEdge defaults) p).site := by
    intro l
    induction l with
    | nil => exact fun p hp => hp
    | cons e l ih => exact fun p hp => ih _ (hedge p e hp)
  exact hfold _ { site := t } h

end Passes

/-! ### Resources that keep their text -/

variable {s t : Site} {h : Handle} {x : String}

/-- The graph of a site stays well formed. -/
theorem kept_wellFormed (M : Store → Store → Prop) : Kept M fun s => s.graph.WellFormed where
  mutate _ _ hs _ := hs
  record _ _ hs := hs
  allocate _ _ hs := hs
  copy _ _ _ hu := hu
  insert s h hs := (edits_insert s h).wellFormed hs
  erase s i hs := (edits_erase s i).wellFormed hs
  wire s source target p hs := (edits_wire s source target p).wellFormed hs
  release s source target hs := (edits_release s source target).wellFormed hs

/-- The resource exists, its text is `x`, and the graph has it under `x` or not at all. -/
structure FiledAt (h : Handle) (x : String) (s : Site) : Prop where
  has : s.store.Has h
  key_eq : s.key h = x
  eq_of_get? : ∀ y, s.graph.get? y = some h → y = x

/-- The resource is still there in the new store, and its text is the same. -/
def KeepsText (h : Handle) (old new : Store) : Prop :=
  old.Has h → new.Has h ∧ new.key h = old.key h

/-- A change of another resource keeps the text of this one. -/
theorem keepsText_modify {k : Handle} (hne : k ≠ h) (store : Store) (f : Resource → Resource) :
    KeepsText h store (store.modify k f) := by
  intro hhas
  have hnumber : k.number ≠ h.number := mt (congrArg Handle.mk) hne
  have hget : (store.modify k f).get h = store.get h := by
    rw [Store.get, Store.modify, Array.getElem?_modify, if_neg hnumber, Store.get]
  refine ⟨?_, ?_⟩
  · rw [Store.Has, Store.modify, Array.size_modify]
    exact hhas
  · rw [Store.key, hget, Store.key]

namespace FiledAt

/-- A resource is filed nowhere else by a change that gives no new place to it. -/
theorem of_get? (hs : s.FiledAt h x) (hstore : t.store = s.store)
    (hget : ∀ y, t.graph.get? y = some h → s.graph.get? y = some h) : t.FiledAt h x where
  has := hstore ▸ hs.has
  key_eq := by rw [key, hstore]; exact hs.key_eq
  eq_of_get? y hy := hs.eq_of_get? y (hget y hy)

/-- A resource is filed under its text only. -/
theorem insert (hs : s.FiledAt h x) (k : Handle) : (s.insert k).1.FiledAt h x := by
  rw [Site.insert]
  split
  case h_1 => exact hs
  case h_2 =>
      refine ⟨hs.has, hs.key_eq, ?_⟩
      intro y hy
      rw [graph_commit, Digraph.get?_insertVertex] at hy
      split at hy
      case isTrue hkey =>
          cases hy
          rw [← hkey, ← hs.key_eq]
      case isFalse => exact hs.eq_of_get? y hy

theorem erase (hs : s.FiledAt h x) (i : Ident) : (s.erase i).1.FiledAt h x := by
  rw [Site.erase]
  split
  case isTrue =>
      refine hs.of_get? rfl ?_
      intro y hy
      rw [graph_commit, Digraph.get?_eraseVertex] at hy
      split at hy
      case isTrue => cases hy
      case isFalse => exact hy
  case isFalse => exact hs

theorem wire (hs : s.FiledAt h x) (source target : String) (p : Properties Payload) :
    (s.wire source target p).1.FiledAt h x := by
  rw [Site.wire]
  split
  case isTrue => exact hs
  case isFalse =>
      refine hs.of_get? rfl ?_
      intro y hy
      rwa [graph_commit, Digraph.get?_connect] at hy

theorem release (hs : s.FiledAt h x) (source target : Ident) :
    (s.release source target).1.FiledAt h x := by
  rw [Site.release]
  split
  case h_1 hok =>
      refine hs.of_get? rfl ?_
      intro y hy
      rwa [graph_commit, Digraph.get?_of_disconnect hok] at hy
  case h_2 => exact hs

end FiledAt

/-- A resource that keeps its text stays where it is filed, whatever else happens. -/
theorem kept_filedAt (h : Handle) (x : String) : Kept (KeepsText h) (FiledAt h x) where
  insert _ k hs := hs.insert k
  erase _ i hs := hs.erase i
  wire _ source target p hs := hs.wire source target p
  release _ source target hs := hs.release source target
  mutate _ _ hs hM :=
    ⟨(hM hs.has).1, (hM hs.has).2.trans hs.key_eq, hs.eq_of_get?⟩
  record _ _ hs := ⟨hs.has, hs.key_eq, hs.eq_of_get?⟩
  allocate s l hs :=
    have hgrows := Store.grows_allocateAll s.store l
    ⟨hgrows.has h hs.has, (hgrows.key_eq hs.has).trans hs.key_eq, hs.eq_of_get?⟩
  -- the resource is as it is now, and filed as it was when the copy was made
  copy _ _ hs hu := ⟨hs.has, hs.key_eq, hu.eq_of_get?⟩

/-- The resource has had one text since some time when it was not filed. -/
def Unrenamed (h : Handle) (t : Site) : Prop :=
  ∃ s : Site, s.store.Has h ∧ (∀ x, s.graph.get? x ≠ some h) ∧ Evolves (KeepsText h) s t

/-- Such a resource is filed under its text or not at all. -/
theorem Unrenamed.filedAt (ht : t.Unrenamed h) : t.FiledAt h (t.key h) := by
  obtain ⟨s, hhas, hnone, hst⟩ := ht
  -- at first it is filed nowhere, so whatever text it has then is the one to keep
  have hs : s.FiledAt h (s.key h) := ⟨hhas, rfl, fun x hx => absurd hx (hnone x)⟩
  have ht := hst.keeps (kept_filedAt h (s.key h)) hs
  rw [ht.key_eq]
  exact ht

/-- The site arises from one whose graph has no vertices, while resources change in any way. -/
def Arises (t : Site) : Prop :=
  ∃ start : Site, start.graph = {} ∧ Evolves (fun _ _ => True) start t

/-- What is reached by operations and expansions is reached by such a history. -/
theorem Reaches.evolves (h : Reaches s t) : Evolves (fun _ _ => True) s t := by
  induction h with
  | refl s => exact Evolves.refl s
  | mutate store _ ih => exact ih.mutate store trivial
  | copy _ _ ih ih' => exact ih.copy ih'
  | insert h _ ih => exact ih.insert h
  | erase i _ ih => exact ih.erase i
  | depend source target p _ ih => exact ih.depend source target p
  | dependByIdent source target _ ih => exact ih.dependByIdent source target
  | dependDeclared source _ ih => exact ih.dependDeclared source
  | release source target _ ih => exact ih.release source target
  | replace old new _ ih => exact ih.replace old new
  | @expand s t kb defaults _ _ ih ihbehave =>
      have hkb : kb.Preserves (Evolves (fun _ _ => True) s) :=
        { allocate := fun _ l hu => hu.allocate l
          record := fun _ _ hu => hu.record _
          release := fun _ source target hu => hu.release source target
          behave := fun l e behaviour hl he source target data u hu =>
            hu.trans (ihbehave l e behaviour hl he source target data u) }
      exact hkb.expandPass defaults t ih

theorem Reachable.arises (h : s.Reachable) : s.Arises := by
  obtain ⟨start, hempty, hreaches⟩ := h
  exact ⟨start, hempty, hreaches.evolves⟩

namespace Arises

theorem wellFormed (ht : t.Arises) : t.graph.WellFormed := by
  obtain ⟨start, hempty, hevolves⟩ := ht
  exact hevolves.keeps (kept_wellFormed _) (hempty ▸ Digraph.wellFormed_empty)

/-- **A resource that has kept its text is found under it and nowhere else**, and a dependency
between two such resources is found under the texts of its ends. -/
theorem unrenamed_found (ht : t.Arises) :
    (∀ h ∈ t.resources, t.Unrenamed h →
      t.find? (t.store.ident h) = some h ∧ ∀ x, t.graph.get? x = some h ↔ x = t.key h) ∧
    ∀ e ∈ t.dependencies, t.Unrenamed e.source → t.Unrenamed e.target →
      t.graph.edge? (t.store.ident e.source).text (t.store.ident e.target).text = some e := by
  constructor
  · intro h hh hkept
    obtain ⟨x, hx⟩ := Table.mem_values_iff.1 hh
    have hkey : t.graph.get? (t.key h) = some h := hkept.filedAt.eq_of_get? x hx ▸ hx
    refine ⟨hkey, fun y => ⟨hkept.filedAt.eq_of_get? y, ?_⟩⟩
    rintro rfl
    exact hkey
  · intro e he hsource htarget
    obtain ⟨x, y, hx, hy, hp⟩ := ht.wellFormed.mem_edges_iff_properties?.1 he
    obtain rfl := hsource.filedAt.eq_of_get? x hx
    obtain rfl := htarget.filedAt.eq_of_get? y hy
    exact Digraph.edge?_eq_some_iff.2 ⟨hx, hy, hp⟩

/-- A dependency that the graph has between two texts is listed. -/
theorem exists_dependency {y : String} {source target : Handle}
    (hxy : s.graph.hasEdge x y = true) (hx : s.graph.get? x = some source)
    (hy : s.graph.get? y = some target) :
    ∃ e ∈ s.dependencies, e.source = source ∧ e.target = target := by
  obtain ⟨a, ha, rfl, rfl⟩ := Digraph.hasEdge_iff.1 hxy
  exact ⟨⟨source, target, a.properties⟩, Digraph.mem_edges_iff.2 ⟨a, ha, hx, hy, rfl⟩, rfl, rfl⟩

/-- Three resources in a row; the last one got another name after it was filed. -/
def recast : Site :=
  { Reachable.cascade with
    store := Reachable.cascade.store.modify ⟨2⟩ fun r =>
      { r with ident := { r.ident with name := "w" } } }

/-- Whatever allows the new name allows the history of these resources. -/
theorem evolves_recast {M : Store → Store → Prop}
    (hM : M Reachable.cascade.store recast.store) :
    ∃ start : Site, start.graph = {} ∧ start.store = Reachable.cascade.store ∧
      Evolves M start recast :=
  ⟨_, rfl, by simp [Reachable.cascade],
    (((Evolves.refl _).depend ⟨0⟩ ⟨1⟩ {}).depend ⟨1⟩ ⟨2⟩ {}).mutate _ hM⟩

theorem recast_arises : recast.Arises := by
  obtain ⟨start, hempty, -, hevolves⟩ := evolves_recast (M := fun _ _ => True) trivial
  exact ⟨start, hempty, hevolves⟩

theorem unrenamed_recast {h : Handle} (hhas : Reachable.cascade.store.Has h) (hne : ⟨2⟩ ≠ h) :
    recast.Unrenamed h := by
  obtain ⟨start, hempty, hstore, hevolves⟩ := evolves_recast (keepsText_modify hne _ _)
  refine ⟨start, hstore ▸ hhas, ?_, hevolves⟩
  intro x hx
  rw [hempty] at hx
  cases hx

/-- The graph still has all three under the texts that they came in with. -/
theorem graph_recast :
    recast.graph.get? "test:part:zone:x" = some ⟨0⟩ ∧
      recast.graph.get? "test:part:zone:y" = some ⟨1⟩ ∧
      recast.graph.get? "test:part:zone:z" = some ⟨2⟩ ∧
      recast.graph.hasEdge "test:part:zone:x" "test:part:zone:y" = true ∧
      recast.graph.hasEdge "test:part:zone:y" "test:part:zone:z" = true := by
  decide +kernel

/-- The first two resources and the dependency between them are found as before. -/
theorem unrenamed_found_recast :
    recast.Arises ∧ recast.Unrenamed ⟨0⟩ ∧ recast.Unrenamed ⟨1⟩ ∧
      recast.find? (recast.store.ident ⟨0⟩) = some ⟨0⟩ ∧
      ∃ e ∈ recast.dependencies, e.source = ⟨0⟩ ∧ e.target = ⟨1⟩ ∧
        recast.graph.edge? (recast.store.ident ⟨0⟩).text (recast.store.ident ⟨1⟩).text =
          some e := by
  have hfirst : recast.Unrenamed ⟨0⟩ :=
    unrenamed_recast (by simp [Reachable.cascade, Store.Has]) (by decide)
  have hsecond : recast.Unrenamed ⟨1⟩ :=
    unrenamed_recast (by simp [Reachable.cascade, Store.Has]) (by decide)
  obtain ⟨hx, hy, -, hxy, -⟩ := graph_recast
  obtain ⟨hresources, hdependencies⟩ := unrenamed_found recast_arises
  obtain ⟨e, he, hsource, htarget⟩ := exists_dependency hxy hx hy
  have hfound := hdependencies e he (hsource ▸ hfirst) (htarget ▸ hsecond)
  rw [hsource, htarget] at hfound
  exact ⟨recast_arises, hfirst, hsecond,
    (hresources ⟨0⟩ (Table.mem_values_of_get? hx) hfirst).1, e, he, hsource, htarget, hfound⟩

/-- The last resource is not found under its new text, nor is the dependency on it, and filing it
again gives it a second place. -/
theorem not_forall_found :
    (¬ ∀ t : Site, t.Arises → ∀ h ∈ t.resources, t.find? (t.store.ident h) = some h) ∧
    (¬ ∀ t : Site, t.Arises → ∀ h x y,
      t.graph.get? x = some h → t.graph.get? y = some h → x = y) ∧
    ¬ ∀ t : Site, t.Arises → ∀ e ∈ t.dependencies,
      t.graph.edge? (t.store.ident e.source).text (t.store.ident e.target).text = some e := by
  obtain ⟨-, hy, hz, -, hyz⟩ := graph_recast
  have hlost : recast.graph.get? (recast.key ⟨2⟩) = none := by decide +kernel
  refine ⟨fun hfound => ?_, fun hplace => ?_, fun hfound => ?_⟩
  · have hlast := hfound recast recast_arises ⟨2⟩ (Table.mem_values_of_get? hz)
    exact Option.some_ne_none _ (hlast.symm.trans hlost)
  · obtain ⟨start, hempty, hevolves⟩ := recast_arises
    have htwice : (recast.insert ⟨2⟩).1.Arises := ⟨start, hempty, hevolves.insert ⟨2⟩⟩
    have hgraph : (recast.insert ⟨2⟩).1.graph =
        recast.graph.insertVertex (recast.key ⟨2⟩) ⟨2⟩ := by rw [insert, hlost, graph_commit]
    have hne : recast.key ⟨2⟩ ≠ "test:part:zone:z" := by
      intro heq
      rw [heq, hz] at hlost
      cases hlost
    refine hne (hplace _ htwice ⟨2⟩ _ _ ?_ ?_)
    · rw [hgraph, Digraph.get?_insertVertex, if_pos rfl]
    · rw [hgraph, Digraph.get?_insertVertex, if_neg hne, hz]
  · obtain ⟨e, he, hsource, htarget⟩ := exists_dependency hyz hy hz
    have hlast := hfound recast recast_arises e he
    obtain ⟨-, htarget', -⟩ := Digraph.edge?_eq_some_iff.1 hlast
    rw [htarget] at htarget'
    exact Option.some_ne_none _ (htarget'.symm.trans hlost)

end Arises

end Groundwork.Site
