/-
Dependencies that an expansion leaves alone.

Where the chain for a dependency is in doubt, nothing is guessed: the dependency stays as it is, no
behaviour is called, and the reason is reported.  All tests come before the first change, so a
dependency that fails one of them leaves the whole state of the pass as it was, up to the report.

Main definitions:

* `Groundwork.KnowledgeBase.dataFor`, `Groundwork.KnowledgeBase.shapeFaults` — what the payload of a
  dependency asks for, and what is reported about it;
* `Groundwork.Pass.report` — a pass after some reports;
* `Groundwork.Pass.Quiet` — a pass without reports.

Main results:

* `Groundwork.KnowledgeBase.expandEdge_refuses` — **a dependency without a chain, with several
  chains, with rejected chains only or with types that cannot be made is left alone**;
* `Groundwork.KnowledgeBase.faults_expandEdge` — reports are never taken back.
-/
import Groundwork.Proofs.Knowledge.Chains

set_option relaxedAutoImplicit false
set_option autoImplicit false

namespace Groundwork

/-! ### Reports -/

namespace Pass

/-- The pass after some failures were reported. -/
def report (p : Pass) (l : List Fault) : Pass := { p with faults := ⟨p.faults.list ++ l⟩ }

@[simp] theorem site_report (p : Pass) (l : List Fault) : (p.report l).site = p.site := rfl

/-- Nothing was reported. -/
def Quiet (p : Pass) : Prop := p.faults.list = []

theorem fail_eq_report (p : Pass) (f : Fault) : p.fail f = p.report f.parts := rfl

theorem report_report (p : Pass) (l m : List Fault) :
    (p.report l).report m = p.report (l ++ m) := by
  simp [report]

theorem faults_report (p : Pass) (l : List Fault) :
    p.faults.list <+: (p.report l).faults.list :=
  List.prefix_append _ _

/-- A pass that succeeds has reported nothing. -/
theorem quiet_of_result {p : Pass} (h : p.faults.result = .ok ()) : p.Quiet :=
  Faults.result_eq_ok_iff.1 h

theorem Quiet.result {p : Pass} (h : p.Quiet) : p.faults.result = .ok () :=
  Faults.result_eq_ok_iff.2 h

theorem Quiet.of_prefix {p p' : Pass} (h : p'.Quiet) (hp : p.faults.list <+: p'.faults.list) :
    p.Quiet :=
  List.prefix_nil.1 (h ▸ hp)

/-- A failure that is not an aggregate shows. -/
theorem not_quiet_fail (p : Pass) {f : Fault} (h : f.parts = [f]) : ¬ (p.fail f).Quiet := by
  rw [Quiet, fail_eq_report, report, h]
  exact List.append_ne_nil_of_right_ne_nil _ (List.cons_ne_nil f [])

end Pass

namespace KnowledgeBase

variable {kb : KnowledgeBase}

/-! ### The payload of a dependency -/

/-- The data that counts for a dependency: its payload, or the defaults where it has none of the
right shape. -/
def dataFor (defaults : EdgeData) (e : Digraph.Edge Handle Payload) : EdgeData :=
  match e.properties.data with
  | some (.data d) => d
  | _ => defaults

/-- What is reported about the payload of a dependency. -/
def shapeFaults (s : Site) (e : Digraph.Edge Handle Payload) : List Fault :=
  match e.properties.data with
  | some .foreign => [.edgeDataShape (s.key e.source) (s.key e.target)]
  | _ => []

theorem dataOf_eq (p : Pass) (defaults : EdgeData) (e : Digraph.Edge Handle Payload) :
    p.dataOf defaults e = (p.report (shapeFaults p.site e), dataFor defaults e) := by
  have hnil : p.report [] = p := by simp [Pass.report]
  rw [Pass.dataOf, EdgeData.ofProperties, shapeFaults, dataFor]
  cases e.properties.data with
  | none => simp only [hnil]
  | some payload =>
      cases payload with
      | data d => simp only [hnil]
      | foreign => rfl

/-! ### One dependency -/

section Edge

variable {defaults : EdgeData} {p : Pass} {e : Digraph.Edge Handle Payload}

theorem expandEdge_of_choose_error {f : Fault}
    (h : kb.choose (p.site.store.ident e.source) (p.site.store.ident e.target)
      (dataFor defaults e).constraint = .error f) :
    kb.expandEdge defaults p e = (p.report (shapeFaults p.site e)).fail f := by
  rw [expandEdge, dataOf_eq]
  simp only [Pass.report, EdgeData.between, h]

theorem expandEdge_of_choose_none
    (h : kb.choose (p.site.store.ident e.source) (p.site.store.ident e.target)
      (dataFor defaults e).constraint = .ok none) :
    kb.expandEdge defaults p e = p.report (shapeFaults p.site e) := by
  rw [expandEdge, dataOf_eq]
  simp only [Pass.report, EdgeData.between, h]

theorem expandEdge_of_create_error {path : List TypeTag} {f : Fault}
    (h : kb.choose (p.site.store.ident e.source) (p.site.store.ident e.target)
      (dataFor defaults e).constraint = .ok (some path))
    (hcreate : (intermediates path).mapM kb.create = .error f) :
    kb.expandEdge defaults p e = (p.report (shapeFaults p.site e)).fail f := by
  rw [expandEdge, dataOf_eq]
  simp only [Pass.report, EdgeData.between, h, hcreate]

theorem expandEdge_of_create {path : List TypeTag} {between : List Resource}
    (h : kb.choose (p.site.store.ident e.source) (p.site.store.ident e.target)
      (dataFor defaults e).constraint = .ok (some path))
    (hcreate : (intermediates path).mapM kb.create = .ok between) :
    kb.expandEdge defaults p e = kb.expandAlong ((dataFor defaults e).between e.source e.target)
      (p.report (shapeFaults p.site e)) path e.source e.target between := by
  rw [expandEdge, dataOf_eq]
  simp only [Pass.report, EdgeData.between, h, hcreate]

end Edge

/-- A chain without intermediates takes the place of no dependency. -/
theorem expandAlong_nil (data : EdgeData) (p : Pass) (path : List TypeTag)
    (source target : Handle) : kb.expandAlong data p path source target [] =
      kb.expandHops data p source ((hops path).zip [target]) := rfl

section Between

variable {data : EdgeData} {q : Pass} {path : List TypeTag} {source target : Handle}
  {between : List Resource} {t : Site}

/-- A chain with intermediates is walked along once the dependency has gone. -/
theorem expandAlong_of_release_ok (hne : between ≠ [])
    (h : Site.release { q.site with store := (q.site.store.allocateAll between).2 }
      ((q.site.store.allocateAll between).2.ident source)
      ((q.site.store.allocateAll between).2.ident target) = (t, .ok ())) :
    kb.expandAlong data q path source target between =
      kb.expandHops data { q with site := t } source
        ((hops path).zip ((q.site.store.allocateAll between).1 ++ [target])) := by
  match between with
  | [] => exact absurd rfl hne
  | r :: rest =>
      rw [expandAlong]
      dsimp only
      rw [h]
      rfl

/-- A chain with intermediates is not walked along if the dependency has gone before. -/
theorem expandAlong_of_release_error (hne : between ≠ []) {f : Fault}
    (h : Site.release { q.site with store := (q.site.store.allocateAll between).2 }
      ((q.site.store.allocateAll between).2.ident source)
      ((q.site.store.allocateAll between).2.ident target) = (t, .error f)) :
    kb.expandAlong data q path source target between =
      ({ q with site := t } : Pass).fail f := by
  match between with
  | [] => exact absurd rfl hne
  | r :: rest =>
      rw [expandAlong]
      dsimp only
      rw [h]
      rfl

end Between

/-- **A dependency whose chain is in doubt is left alone.**  There may be no chain, several chains
that the constraint permits, none among those that there are, or a type on the only one of which no
resource can be made.  In each case the pass stays as it was, up to what is reported; a payload of
another shape is reported first, and the constraint is then that of the defaults. -/
theorem expandEdge_refuses (kb : KnowledgeBase) (defaults : EdgeData) (p : Pass)
    (e : Digraph.Edge Handle Payload) :
    let source := p.site.store.ident e.source
    let target := p.site.store.ident e.target
    let paths := kb.paths source.tag target.tag
    let permitted := paths.filter (dataFor defaults e).constraint.permits
    let refused (l : List Fault) : Pass :=
      { p with faults := ⟨p.faults.list ++ (shapeFaults p.site e ++ l)⟩ }
    (paths = [] → kb.expandEdge defaults p e = refused []) ∧
      (2 ≤ permitted.length →
        kb.expandEdge defaults p e = refused [.ambiguousPath source.text target.text permitted]) ∧
      (paths ≠ [] → permitted = [] → kb.expandEdge defaults p e =
        refused [.unsatisfiable source.text target.text paths.length]) ∧
      ∀ path t, permitted = [path] →
        (intermediates path).find? (fun t => !kb.factories.contains t) = some t →
        kb.expandEdge defaults p e = refused [.missingFactory t] := by
  intro source target paths permitted refused
  have hrefused : ∀ f : Fault, f.parts = [f] →
      (p.report (shapeFaults p.site e)).fail f = refused [f] := by
    intro f hf
    rw [Pass.fail_eq_report, Pass.report_report, hf]
    rfl
  refine ⟨fun hnone => ?_, fun hseveral => ?_, fun hsome hnone => ?_,
    fun path t hone hmissing => ?_⟩
  · rw [expandEdge_of_choose_none (choose_of_paths_eq_nil hnone)]
    simp only [refused, Pass.report, List.append_nil]
  · rw [expandEdge_of_choose_error (choose_of_permits_several hseveral)]
    exact hrefused _ rfl
  · rw [expandEdge_of_choose_error (choose_of_permits_none hsome hnone)]
    exact hrefused _ rfl
  · rw [expandEdge_of_create_error (choose_of_permits_one hone) (mapM_create_of_missing hmissing)]
    exact hrefused _ rfl

/-- A knowledge base with two chains from `test:a` to `test:d`. -/
def forked : KnowledgeBase :=
  let form (kind : String) : Form := { provider := "test", zero := kind }
  let link (kb : KnowledgeBase) (source target : String) : KnowledgeBase :=
    (kb.addForms (form source) (form target) {}).1
  link (link (link (link {} "a" "b") "b" "d") "a" "c") "c" "d"

/-- Two chains are permitted, and both are reported. -/
theorem expandEdge_refuses_forked :
    let part (kind : String) : Resource :=
      { ident := { provider := "test", kind, scope := "zone" } }
    let p : Pass := { site := { store := ⟨#[part "a", part "d"]⟩ } }
    let permitted : List (List TypeTag) :=
      [[⟨"test:a"⟩, ⟨"test:b"⟩, ⟨"test:d"⟩], [⟨"test:a"⟩, ⟨"test:c"⟩, ⟨"test:d"⟩]]
    (forked.paths ⟨"test:a"⟩ ⟨"test:d"⟩).filter (EdgeConstraint.permits {}) = permitted ∧
      forked.expandEdge {} p ⟨⟨0⟩, ⟨1⟩, {}⟩ =
        { p with faults := ⟨[.ambiguousPath (part "a").key (part "d").key permitted]⟩ } := by
  intro part p permitted
  have hpermitted : (forked.paths ⟨"test:a"⟩ ⟨"test:d"⟩).filter (EdgeConstraint.permits {}) =
      permitted := by decide +kernel
  obtain ⟨-, hseveral, -, -⟩ := expandEdge_refuses forked {} p ⟨⟨0⟩, ⟨1⟩, {}⟩
  refine ⟨hpermitted, (hseveral ?_).trans ?_⟩
  · change 2 ≤ ((forked.paths ⟨"test:a"⟩ ⟨"test:d"⟩).filter (EdgeConstraint.permits {})).length
    rw [hpermitted]
    decide
  · change ({ p with faults := ⟨[.ambiguousPath (part "a").key (part "d").key
      ((forked.paths ⟨"test:a"⟩ ⟨"test:d"⟩).filter (EdgeConstraint.permits {}))]⟩ } : Pass) = _
    rw [hpermitted]

/-! ### Reports stay -/

theorem faults_expandHop (data : EdgeData) (p : Pass) (l : Link) (previous next : Handle) :
    p.faults.list <+: (kb.expandHop data p l previous next).faults.list := by
  rw [expandHop]
  split
  · exact List.prefix_rfl
  · dsimp only
    split
    · exact List.prefix_rfl
    · exact Pass.faults_report _ _

theorem faults_expandHops (data : EdgeData) (l : List (Link × Handle)) (p : Pass)
    (previous : Handle) : p.faults.list <+: (kb.expandHops data p previous l).faults.list := by
  induction l generalizing p previous with
  | nil => exact List.prefix_rfl
  | cons hop l ih => exact (faults_expandHop data p hop.1 previous hop.2).trans (ih _ _)

theorem faults_expandAlong (data : EdgeData) (p : Pass) (path : List TypeTag)
    (source target : Handle) (between : List Resource) :
    p.faults.list <+: (kb.expandAlong data p path source target between).faults.list := by
  have hwalk (site : Site) (l : List (Link × Handle)) :
      p.faults.list <+: (kb.expandHops data { p with site } source l).faults.list :=
    faults_expandHops data l { p with site } source
  rw [expandAlong]
  dsimp only
  split
  · exact hwalk _ _
  · split
    · exact hwalk _ _
    · exact Pass.faults_report _ _

/-- What was reported before a dependency is expanded is still reported afterwards. -/
theorem faults_expandEdge (defaults : EdgeData) (p : Pass) (e : Digraph.Edge Handle Payload) :
    p.faults.list <+: (kb.expandEdge defaults p e).faults.list := by
  have hdata : p.faults.list <+: (p.dataOf defaults e).1.faults.list := by
    rw [dataOf_eq]
    exact Pass.faults_report _ _
  rw [expandEdge]
  dsimp only
  split
  · exact hdata.trans (Pass.faults_report _ _)
  · exact hdata
  · split
    · exact hdata.trans (Pass.faults_report _ _)
    · exact hdata.trans (faults_expandAlong _ _ _ _ _ _)

end KnowledgeBase

end Groundwork
