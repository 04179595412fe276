/-
Declared dependencies.

A resource is made to depend on everything that it declares, one reference after the other, and a
reference is resolved in the graph that those before it have left.  The order of the references
does not matter all the same.  New dependencies leave the declaring resource, so no new way leads
into it, and whether a reference closes a cycle is decided by the graph at the start.

Main definitions:

* `Groundwork.Site.target`, `Groundwork.Site.Resolves` — the text that a reference leads to, and
  the references that need no help from others;
* `Groundwork.Site.wanted`, `Groundwork.Site.refused` — the dependencies that references add, and
  the faults of those that would close a cycle;
* `Groundwork.Site.Declared` — where some of the references have led.

Main results:

* `Groundwork.Site.Declared.leads_iff` — no new way leads into the declaring resource;
* `Groundwork.Site.Declared.dependOn`, `Groundwork.Site.Declared.run` — one more reference, and all
  of them;
* `Groundwork.Site.Reachable.dependDeclared_exact` — **what is added and what is reported are told
  by the references and the graph at the start**, and the order of the references does not matter.
-/
import Groundwork.Proofs.Resource.Depending

set_option relaxedAutoImplicit false
set_option autoImplicit false

namespace Groundwork.Site

open Relation
open Groundwork.Digraph (proper ends)

variable {s u : Site} {x : String} {l done : List Reference} {r : Reference} {source b : Handle}
  {faults : Faults}

/-! ### References -/

/-- The text of the identity that a reference leads to. -/
def target (s : Site) (r : Reference) : String := (s.store.referred r).text

/-- The reference has its resource with it, or the graph has one under its text. -/
def Resolves (s : Site) (r : Reference) : Prop :=
  (∃ h, r = .handle h) ∨ s.graph.contains (s.target r) = true

/-- The dependencies of the resource with the text `x` that the references of `l` add: on every
other text that one of them leads to, unless there is a way back from there to `x`. -/
def wanted (s : Site) (x : String) (l : List Reference) : Set (String × String) :=
  {e | e.1 = x ∧ e.2 ≠ x ∧ ¬ s.graph.Leads e.2 x ∧ ∃ r ∈ l, s.target r = e.2 ∧ s.Resolves r}

open Classical in
/-- A fault for each reference of `l` from whose text, other than `x`, there is a way to `x`. -/
noncomputable def refused (s : Site) (x : String) (l : List Reference) : List Fault :=
  (l.filter fun r => s.target r ≠ x ∧ s.graph.Leads (s.target r) x).map fun r =>
    .wouldCycle x (s.target r)

theorem wanted_nil (s : Site) (x : String) : s.wanted x [] = ∅ := by
  ext e
  simp [wanted]

/-- A reference that does not resolve, leads to `x` or leads back to `x` adds nothing. -/
theorem wanted_concat_of_not
    (h : s.target r = x ∨ s.graph.Leads (s.target r) x ∨ ¬ s.Resolves r) :
    s.wanted x (l ++ [r]) = s.wanted x l := by
  ext ⟨a, b⟩
  simp only [wanted, Set.mem_ofPred_eq, List.mem_append, List.mem_singleton]
  constructor
  · rintro ⟨hsource, hne, hleads, r', hr' | rfl, rfl, hres⟩
    · exact ⟨hsource, hne, hleads, r', hr', rfl, hres⟩
    · rcases h with heq | hback | hnot
      · exact absurd heq hne
      · exact absurd hback hleads
      · exact absurd hres hnot
  · rintro ⟨hsource, hne, hleads, r', hr', heq, hres⟩
    exact ⟨hsource, hne, hleads, r', Or.inl hr', heq, hres⟩

/-- Any other reference adds its dependency, also one that was resolved because of an earlier
reference. -/
theorem wanted_concat (hne : s.target r ≠ x) (hleads : ¬ s.graph.Leads (s.target r) x)
    (hres : s.Resolves r ∨ (x, s.target r) ∈ s.wanted x l) :
    s.wanted x (l ++ [r]) = s.wanted x l ∪ {(x, s.target r)} := by
  ext ⟨a, b⟩
  simp only [wanted, Set.mem_ofPred_eq, List.mem_append, List.mem_singleton, Set.mem_union,
    Set.mem_singleton_iff, Prod.mk.injEq]
  constructor
  · rintro ⟨hsource, hne', hleads', r', hr' | rfl, heq, hres'⟩
    · exact Or.inl ⟨hsource, hne', hleads', r', hr', heq, hres'⟩
    · exact Or.inr ⟨hsource, heq.symm⟩
  · rintro (⟨hsource, hne', hleads', r', hr', heq, hres'⟩ | ⟨rfl, rfl⟩)
    · exact ⟨hsource, hne', hleads', r', Or.inl hr', heq, hres'⟩
    · rcases hres with hres | ⟨-, -, -, r', hr', heq, hres⟩
      · exact ⟨rfl, hne, hleads, r, Or.inr rfl, rfl, hres⟩
      · exact ⟨rfl, hne, hleads, r', Or.inl hr', heq, hres⟩

theorem refused_concat_of_not (h : s.target r = x ∨ ¬ s.graph.Leads (s.target r) x) :
    s.refused x (l ++ [r]) = s.refused x l := by
  have hnot : ¬ (s.target r ≠ x ∧ s.graph.Leads (s.target r) x) := fun hboth =>
    h.elim hboth.1 fun hleads => hleads hboth.2
  simp [refused, List.filter_append, hnot]

theorem refused_concat (hne : s.target r ≠ x) (hleads : s.graph.Leads (s.target r) x) :
    s.refused x (l ++ [r]) = s.refused x l ++ [.wouldCycle x (s.target r)] := by
  simp [refused, List.filter_append, hne, hleads]

/-! ### Some of the references -/

/-- The references `done` of `source` have led from `s` to `u` and to these faults. -/
structure Declared (s : Site) (source : Handle) (done : List Reference) (u : Site)
    (faults : Faults) : Prop where
  /-- No resource changes. -/
  store_eq : u.store = s.store
  /-- The dependencies fit the resources. -/
  wellFormed : u.graph.WellFormed
  /-- Every resource is in its place. -/
  inPlace : ∀ x, u.InPlace x
  /-- The wanted dependencies were added, and their ends were filed. -/
  rewires : s.graph.Rewires u.graph ∅ (s.wanted (s.key source) done)
    (ends (s.wanted (s.key source) done))
  /-- The other references from which there is a way back were reported. -/
  faults_eq : faults.list = s.refused (s.key source) done

namespace Declared

theorem start (hg : s.graph.WellFormed) (hs : ∀ x, s.InPlace x) (source : Handle) :
    Declared s source [] s {} where
  store_eq := rfl
  wellFormed := hg
  inPlace := hs
  rewires := by
    rw [wanted_nil, Digraph.ends_empty]
    exact Digraph.Rewires.refl _
  faults_eq := rfl

section

variable (h : Declared s source done u faults)

include h

theorem key_eq (b : Handle) : u.key b = s.key b := by rw [key, h.store_eq, key]

/-- No new way leads into the declaring resource, since all new dependencies leave it. -/
theorem leads_iff {y : String} (hy : y ≠ s.key source) :
    u.graph.Leads y (s.key source) ↔ s.graph.Leads y (s.key source) := by
  have hadj : ∀ a b, u.graph.Adj a b ↔ s.graph.Adj a b ∨ (a, b) ∈ s.wanted (s.key source) done := by
    intro a b
    rw [← Digraph.mem_edgeSet, h.rewires.edges, Set.sdiff_empty, Set.mem_union, Digraph.mem_edgeSet]
  constructor
  · intro hleads
    induction hleads using TransGen.head_induction_on with
    | single hstep =>
        rcases (hadj _ _).1 hstep with hold | hnew
        · exact TransGen.single hold
        · exact absurd hnew.1 hy
    | head hstep _ ih =>
        rcases (hadj _ _).1 hstep with hold | hnew
        · -- the rest of the way may start at the source, and then there is no need for it
          rename_i c _
          by_cases hc : c = s.key source
          · exact TransGen.single (hc ▸ hold)
          · exact TransGen.head hold (ih hc)
        · exact absurd hnew.1 hy
  · exact TransGen.mono (fun a b hab => (hadj a b).2 (Or.inl hab)) _ _

/-- The vertices are the old ones and the ends of the new dependencies. -/
theorem contains_iff {y : String} : u.graph.contains y = true ↔
    s.graph.contains y = true ∨ y ∈ ends (s.wanted (s.key source) done) := by
  rw [← Digraph.mem_vertexSet, h.rewires.vertices]
  rfl

/-- A reference that leads to the source itself changes nothing, and neither does one that does
not resolve. -/
theorem pass (hr : s.target r = s.key source ∨
      ¬ s.Resolves r ∧ ¬ s.graph.Leads (s.target r) (s.key source)) :
    Declared s source (done ++ [r]) u faults where
  store_eq := h.store_eq
  wellFormed := h.wellFormed
  inPlace := h.inPlace
  rewires := by
    rw [wanted_concat_of_not (hr.imp_right fun hnot => Or.inr hnot.1)]
    exact h.rewires
  faults_eq := by
    rw [refused_concat_of_not (hr.imp_right And.right)]
    exact h.faults_eq

/-- A reference that has been resolved to the resource `b`. -/
theorem depend (hb : s.key b = s.target r)
    (hres : s.Resolves r ∨ s.target r ∈ ends (s.wanted (s.key source) done)) :
    Declared s source (done ++ [r]) (u.depend source b {}).1
      (faults.pushResult (u.depend source b {}).2) := by
  have hsource := h.key_eq source
  have htarget : u.key b = s.target r := (h.key_eq b).trans hb
  by_cases heq : s.target r = s.key source
  · have hdepend : u.depend source b {} = (u, .ok ()) := by
      rw [Site.depend, if_pos (by rw [hsource, htarget, heq])]
    rw [hdepend]
    exact h.pass (Or.inl heq)
  · have hne : u.key source ≠ u.key b := by
      rw [hsource, htarget]
      exact Ne.symm heq
    by_cases hleads : s.graph.Leads (s.target r) (s.key source)
    · have hback : u.graph.Leads (u.key b) (u.key source) := by
        rw [hsource, htarget, h.leads_iff heq]
        exact hleads
      rw [depend_of_leads h.wellFormed hne hback, hsource, htarget]
      refine ⟨h.store_eq, h.wellFormed, h.inPlace, ?_, ?_⟩
      · rw [wanted_concat_of_not (Or.inr (Or.inl hleads))]
        exact h.rewires
      · rw [refused_concat heq hleads, ← h.faults_eq]
        rfl
    · have hback : ¬ u.graph.Leads (u.key b) (u.key source) := by
        rw [hsource, htarget, h.leads_iff heq]
        exact hleads
      have hok : (u.depend source b {}).2 = .ok () := by
        rw [depend_of_not_leads h.wellFormed hne hback]
      have hround := rewires_depend (t := (u.depend source b {}).1) (Prod.ext rfl hok)
      -- the text was among the ends only as the target of a dependency that is there
      have hwanted : s.Resolves r ∨ (s.key source, s.target r) ∈ s.wanted (s.key source) done := by
        refine hres.imp_right ?_
        rintro ⟨⟨a, c⟩, hac, hend | hend⟩
        · exact absurd (hend.trans hac.1) heq
        · obtain rfl : a = s.key source := hac.1
          rw [hend]
          exact hac
      refine ⟨(store_depend u source b {}).trans h.store_eq,
        (edits_depend u source b {}).wellFormed h.wellFormed,
        fun x => (h.inPlace x).depend source b {}, ?_, ?_⟩
      · rw [Digraph.proper_singleton_of_ne hne, hsource, htarget] at hround
        rw [wanted_concat heq hleads hwanted, Digraph.ends_union]
        exact h.rewires.andAdd hround
      · rw [refused_concat_of_not (Or.inr hleads), hok]
        exact h.faults_eq

/-- One more reference. -/
theorem dependOn (hg : s.graph.WellFormed) (r : Reference) :
    Declared s source (done ++ [r]) (u.dependOn source r).1
      (faults.pushResult (u.dependOn source r).2) := by
  cases r with
  | handle b => exact h.depend rfl (Or.inl (Or.inl ⟨b, rfl⟩))
  | ident i =>
      rw [Site.dependOn]
      split
      case h_1 b hfound =>
          have hcontains : u.graph.contains i.text = true := Digraph.contains_iff.2 ⟨b, hfound⟩
          have hb : s.key b = i.text := (h.key_eq b).symm.trans (h.inPlace i.text b hfound)
          exact h.depend hb ((h.contains_iff.1 hcontains).imp_left Or.inr)
      case h_2 hnone =>
          have hmissing : ¬ u.graph.contains i.text = true := by
            rw [Digraph.contains_eq_isSome_get?, Option.not_isSome_iff_eq_none]
            exact hnone
          have hold : ¬ s.graph.contains i.text = true := fun hmem =>
            hmissing (h.contains_iff.2 (Or.inl hmem))
          by_cases heq : i.text = s.key source
          · exact h.pass (Or.inl heq)
          · refine h.pass (Or.inr ⟨?_, fun hleads => hold ?_⟩)
            · rintro (⟨b, hb⟩ | hmem)
              · cases hb
              · exact hold hmem
            · exact (hg.contains_of_reflTransGen heq hleads.to_reflTransGen).1

end

/-- All references of a list. -/
theorem run (hg : s.graph.WellFormed) (h : Declared s source done u faults) :
    Declared s source (done ++ l)
      (l.foldl (fun st r => ((st.1.dependOn source r).1,
        st.2.pushResult (st.1.dependOn source r).2)) (u, faults)).1
      (l.foldl (fun st r => ((st.1.dependOn source r).1,
        st.2.pushResult (st.1.dependOn source r).2)) (u, faults)).2 := by
  induction l generalizing done u faults with
  | nil =>
      rw [List.append_nil]
      exact h
  | cons r l ih =>
      rw [List.append_cons]
      exact ih (h.dependOn hg r)

end Declared

/-! ### All references -/

/-- What the references of a resource lead to. -/
theorem declared_dependDeclared (hg : s.graph.WellFormed) (hs : ∀ x, s.InPlace x)
    (source : Handle) :
    ∃ faults : Faults, (s.dependDeclared source).2 = faults.result ∧
      Declared s source (s.store.get source).declared (s.dependDeclared source).1 faults :=
  ⟨_, rfl, (Declared.start hg hs source).run hg⟩

/-! ### References in another order -/

variable {store : Store}

theorem target_congr (hkey : ∀ h, store.key h = s.store.key h) (r : Reference) :
    ({ s with store } : Site).target r = s.target r := by
  cases r with
  | handle h => exact hkey h
  | ident i => rfl

theorem wanted_perm (hkey : ∀ h, store.key h = s.store.key h) {l l' : List Reference}
    (hl : l'.Perm l) : ({ s with store } : Site).wanted x l' = s.wanted x l := by
  ext e
  simp only [wanted, Resolves, target_congr hkey, hl.mem_iff]

theorem refused_perm (hkey : ∀ h, store.key h = s.store.key h) {l l' : List Reference}
    (hl : l'.Perm l) : (({ s with store } : Site).refused x l').Perm (s.refused x l) := by
  have htarget : ({ s with store } : Site).target = s.target := funext (target_congr hkey)
  rw [refused, htarget]
  exact (hl.filter _).map _

namespace Reachable

/-- **What is added and what is reported are told by the references and the graph at the start.**
The new dependencies are the wanted ones, their ends are filed, and nothing else changes; one fault
is reported for each reference to a resource that leads back, in the order of the references.  If
the same references are declared in another order, the graph comes out the same, and so do the
faults up to their order. -/
theorem dependDeclared_exact (hs : s.Reachable) (hfiled : s.Filed) (source : Handle) :
    let x := s.key source
    let l := (s.store.get source).declared
    let t := s.dependDeclared source
    (t.1.store = s.store ∧ s.graph.Rewires t.1.graph ∅ (s.wanted x l) (ends (s.wanted x l)) ∧
        t.2 = Faults.result ⟨s.refused x l⟩) ∧
      ∀ store : Store, (∀ h, store.key h = s.store.key h) → (store.get source).declared.Perm l →
        let u := ({ s with store } : Site).dependDeclared source
        u.1.graph.vertexSet = t.1.graph.vertexSet ∧ u.1.graph.edgeSet = t.1.graph.edgeSet ∧
          u.1.graph.properties? = t.1.graph.properties? ∧
          ∃ faults : Faults, u.2 = faults.result ∧ faults.list.Perm (s.refused x l) := by
  intro x l t
  obtain ⟨faults, hresult, ht⟩ := declared_dependDeclared hs.wellFormed hfiled.inPlace source
  have hfaults : faults = ⟨s.refused x l⟩ := congrArg Faults.mk ht.faults_eq
  refine ⟨⟨ht.store_eq, ht.rewires, hresult.trans (congrArg Faults.result hfaults)⟩, ?_⟩
  intro store hkey hperm u
  have hplaces : ∀ y, ({ s with store } : Site).InPlace y := fun y h hy =>
    (hkey h).trans (hfiled.inPlace y h hy)
  obtain ⟨faults', hresult', hu⟩ := declared_dependDeclared (s := { s with store }) hs.wellFormed
    hplaces source
  have hx : ({ s with store } : Site).key source = x := hkey source
  have hround := hu.rewires
  rw [hx, wanted_perm hkey hperm] at hround
  have hedges : u.1.graph.edgeSet = t.1.graph.edgeSet := by
    rw [hround.edges, ht.rewires.edges]
  refine ⟨by rw [hround.vertices, ht.rewires.vertices], hedges, ?_, faults', hresult', ?_⟩
  · exact hround.properties?_eq ht.rewires
  · rw [hu.faults_eq, hx]
    exact refused_perm hkey hperm

/-- Three resources, the last of which depends on the first.  The first declares the second before
and after it has it at hand, the last twice, and itself. -/
def survey : Site :=
  let ident (provider : String) : Ident := { provider, scope := "zone" }
  let part (provider : String) (references : List Reference) : Resource :=
    { form := { provider := "test", zero := "part" }, ident := ident provider, references }
  let declared : List Reference :=
    [.ident (ident "y"), .handle ⟨1⟩, .ident (ident "z"), .handle ⟨0⟩, .ident (ident "y"),
      .handle ⟨2⟩]
  let start : Site := { store := ⟨#[part "x" declared, part "y" [], part "z" []]⟩ }
  (start.depend ⟨2⟩ ⟨0⟩ {}).1

/-- The same resources with the references the other way round. -/
def surveyBackwards : Store :=
  survey.store.modify ⟨0⟩ fun r => { r with references := r.references.reverse }

theorem reachable_survey : survey.Reachable := ⟨_, rfl, (Reaches.refl _).depend ⟨2⟩ ⟨0⟩ {}⟩

theorem filed_survey : survey.Filed := by
  refine (filed_of_graph_eq_empty rfl).depend ?_ ?_ {}
  all_goals decide +kernel

theorem key_surveyBackwards (h : Handle) : surveyBackwards.key h = survey.key h := by
  have hget : surveyBackwards.key h = survey.store.key h := by
    rw [surveyBackwards, Store.key, Store.get, Store.modify, Array.getElem?_modify]
    split
    · rw [Store.key, Store.get]
      cases survey.store.resources[h.number]? <;> rfl
    · rfl
  exact hget

/-- The first resource comes to depend on the second, and twice not on the last, whichever way its
references are read. -/
theorem dependDeclared_exact_survey :
    survey.Reachable ∧ survey.Filed ∧
      (survey.dependDeclared ⟨0⟩).2 =
        .error (.many [.wouldCycle "x::zone" "z::zone",
          .wouldCycle "x::zone" "z::zone"]) ∧
      ("x::zone", "y::zone") ∈ (survey.dependDeclared ⟨0⟩).1.graph.edgeSet ∧
      (({ survey with store := surveyBackwards } : Site).dependDeclared ⟨0⟩).1.graph.edgeSet =
        (survey.dependDeclared ⟨0⟩).1.graph.edgeSet := by
  obtain ⟨-, hperm⟩ := dependDeclared_exact reachable_survey filed_survey ⟨0⟩
  obtain ⟨-, hedges, -⟩ := hperm surveyBackwards key_surveyBackwards (by decide +kernel)
  refine ⟨reachable_survey, filed_survey, rfl, ?_, hedges⟩
  exact Digraph.hasEdge_iff.1 (by decide +kernel)

end Reachable

end Groundwork.Site
