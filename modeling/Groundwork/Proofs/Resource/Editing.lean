/-
The changes of a site as edits of its graph.

Every operation of a site that changes the graph files a resource, removes one, adds a dependency
that has passed the test for cycles, or removes a dependency, several times over at most.  So
whatever these four changes keep, every operation keeps, also one that fails midway.

Main definitions:

* `Groundwork.Site.Stable` — a property of sites that the four changes keep.

Main results:

* `Groundwork.Site.Stable.depend`, `Groundwork.Site.Stable.dependByIdent`,
  `Groundwork.Site.Stable.dependDeclared`, `Groundwork.Site.Stable.replace` — the operations keep
  such a property;

* `Groundwork.Site.edits_depend`, `Groundwork.Site.edits_dependByIdent`,
  `Groundwork.Site.edits_dependDeclared`, `Groundwork.Site.edits_erase`,
  `Groundwork.Site.edits_release`, `Groundwork.Site.edits_replace` — the operations are edits.
-/
import Groundwork.Resource.Graph
import Groundwork.Proofs.Digraph.Acyclicity

set_option relaxedAutoImplicit false
set_option autoImplicit false

namespace Groundwork.Site

open Groundwork.Digraph (Edit Edits)

/-! ### Putting a graph in place -/

@[simp] theorem graph_commit (s : Site) (g : ResourceGraph) (l : List Digraph.Change) :
    (s.commit g l).graph = g := rfl

@[simp] theorem store_commit (s : Site) (g : ResourceGraph) (l : List Digraph.Change) :
    (s.commit g l).store = s.store := rfl

/-! ### Single changes -/

theorem edits_insert (s : Site) (h : Handle) : Edits s.graph (s.insert h).1.graph := by
  rw [insert]
  split
  · exact Edits.refl _
  · exact Edits.single (Edit.insertVertex _ _ _)

theorem edits_erase (s : Site) (i : Ident) : Edits s.graph (s.erase i).1.graph := by
  rw [erase]
  split
  · exact Edits.single (Edit.eraseVertex _ _)
  · exact Edits.refl _

theorem edits_wire (s : Site) (source target : String) (p : Properties Payload) :
    Edits s.graph (s.wire source target p).1.graph := by
  rw [wire]
  split
  case isTrue => exact Edits.refl _
  case isFalse hcycle => exact Edits.single (Edit.connect _ _ _ _ (Bool.eq_false_iff.2 hcycle))

theorem edits_release (s : Site) (source target : Ident) :
    Edits s.graph (s.release source target).1.graph := by
  rw [release]
  split
  case h_1 hok => exact Edits.single (Edit.disconnect hok)
  case h_2 => exact Edits.refl _

/-! ### Changes made of several -/

/-- None of the changes that all operations are made of breaks the property `P` of sites. -/
structure Stable (P : Site → Prop) : Prop where
  insert : ∀ s h, P s → P (s.insert h).1
  erase : ∀ s i, P s → P (s.erase i).1
  wire : ∀ s source target p, P s → P (s.wire source target p).1
  release : ∀ s source target, P s → P (s.release source target).1

namespace Stable

variable {P : Site → Prop} {s : Site}

theorem depend (hP : Stable P) (hs : P s) (source target : Handle) (p : Properties Payload) :
    P (s.depend source target p).1 := by
  rw [Site.depend]
  split
  · exact hs
  · exact hP.wire _ _ _ p (hP.insert _ target (hP.insert s source hs))

theorem dependByIdent (hP : Stable P) (hs : P s) (source target : Ident) :
    P (s.dependByIdent source target).1 := by
  rw [Site.dependByIdent]
  split
  · exact hs
  · split
    · exact hs
    · exact hP.wire s _ _ _ hs

theorem dependOn (hP : Stable P) (hs : P s) (source : Handle) (r : Reference) :
    P (s.dependOn source r).1 := by
  cases r with
  | handle target => exact hP.depend hs source target _
  | ident i =>
      rw [Site.dependOn]
      split
      · exact hP.depend hs source _ _
      · exact hs

theorem dependDeclared (hP : Stable P) (hs : P s) (source : Handle) :
    P (s.dependDeclared source).1 := by
  have hfold : ∀ (l : List Reference) (st : Site × Faults), P st.1 →
      P (l.foldl (fun st r => ((st.1.dependOn source r).1,
        st.2.pushResult (st.1.dependOn source r).2)) st).1 := by
    intro l
    induction l with
    | nil => exact fun _ hst => hst
    | cons r l ih => exact fun st hst => ih _ (hP.dependOn hst source r)
  exact hfold _ (s, {}) hs

/-- Changes in turn keep what each of them keeps. -/
theorem attempt {l : List (Site → Site × Except Fault Unit)}
    (hl : ∀ change ∈ l, ∀ u : Site, P u → P (change u).1) (hs : P s) : P (s.attempt l).1 := by
  induction l generalizing s with
  | nil => exact hs
  | cons change l ih =>
      have hfirst := hl change List.mem_cons_self s hs
      have hrest : ∀ {u : Site}, P u → P (u.attempt l).1 :=
        ih fun c hc => hl c (List.mem_cons_of_mem change hc)
      rw [Site.attempt]
      split
      case h_1 t heq =>
          rw [heq] at hfirst
          exact hrest hfirst
      case h_2 t f heq =>
          rw [heq] at hfirst
          exact hfirst

theorem attempt_depend {α : Type} (hP : Stable P) (hs : P s) (l : List α)
    (source target : α → Handle) (p : α → Properties Payload) :
    P (s.attempt (l.map fun e s => s.depend (source e) (target e) (p e))).1 := by
  refine attempt (fun change hchange u hu => ?_) hs
  obtain ⟨e, -, rfl⟩ := List.mem_map.1 hchange
  exact hP.depend hu _ _ _

theorem replace (hP : Stable P) (hs : P s) (old : Ident) (new : Handle) :
    P (s.replace old new).1 := by
  rw [Site.replace]
  split
  case h_1 => exact hs
  case h_2 present _ =>
      have hleaving := hP.attempt_depend (hP.insert s new hs)
        ((s.insert new).1.graph.edgesOf ((s.insert new).1.key present) .outgoing)
        (fun _ => (s.insert new).2) (fun e => e.target) (fun e => e.properties)
      dsimp only
      split
      case h_1 t f heq =>
          rw [heq] at hleaving
          exact hleaving
      case h_2 t heq =>
          rw [heq] at hleaving
          have hentering := hP.attempt_depend hleaving
            (t.graph.edgesOf (t.key present) .incoming)
            (fun e => e.source) (fun _ => (s.insert new).2) (fun e => e.properties)
          split
          case h_1 u f heq' =>
              rw [heq'] at hentering
              exact hentering
          case h_2 u heq' =>
              rw [heq'] at hentering
              exact hP.erase u old hentering

end Stable

/-! ### Operations as edits -/

/-- To arise from a graph by edits is stable, since edits can follow each other. -/
theorem stable_edits (g : ResourceGraph) : Stable fun s => Edits g s.graph where
  insert s h hs := hs.trans (edits_insert s h)
  erase s i hs := hs.trans (edits_erase s i)
  wire s source target p hs := hs.trans (edits_wire s source target p)
  release s source target hs := hs.trans (edits_release s source target)

theorem edits_depend (s : Site) (source target : Handle) (p : Properties Payload) :
    Edits s.graph (s.depend source target p).1.graph :=
  (stable_edits s.graph).depend (Edits.refl _) source target p

theorem edits_dependByIdent (s : Site) (source target : Ident) :
    Edits s.graph (s.dependByIdent source target).1.graph :=
  (stable_edits s.graph).dependByIdent (Edits.refl _) source target

theorem edits_dependDeclared (s : Site) (source : Handle) :
    Edits s.graph (s.dependDeclared source).1.graph :=
  (stable_edits s.graph).dependDeclared (Edits.refl _) source

theorem edits_replace (s : Site) (old : Ident) (new : Handle) :
    Edits s.graph (s.replace old new).1.graph :=
  (stable_edits s.graph).replace (Edits.refl _) old new

end Groundwork.Site
