/-
What an observer of a graph can know.

A graph announces what an operation does to its vertices and edges, and the announcements are worked
out apart from the change itself: those of a removed vertex from two listings, before it goes.  An
observer who was there from the start can keep a sketch of the graph, which is the set of its ids
and the set of its pairs, and follow the announcements on it.  The sketch then never parts from the
graph, and no announcement ever contradicts it.

Main definitions:

* `Groundwork.Digraph.Sketch` — a set of ids and a set of pairs;
* `Groundwork.Digraph.Sketch.follow?`, `Groundwork.Digraph.Sketch.replay?` — following announcements,
  which have to fit;
* `Groundwork.Digraph.sketch` — the sketch of a graph;
* `Groundwork.Digraph.Operation.changes` — what an operation announces;
* `Groundwork.Digraph.Operation.Idle` — an operation that is refused, or changes only values and
  properties;
* `Groundwork.Digraph.Watched`, `Groundwork.Digraph.Operation.watch` — a graph under an observer.

Main results:

* `Groundwork.Digraph.WellFormed.replay?_changes` — the announcements of one operation;
* `Groundwork.Digraph.changes_eq_nil_iff` — exactly the idle operations are silent;
* `Groundwork.Digraph.eraseVertexChanges_eq` — a vertex goes after its edges, each announced once;
* `Groundwork.Digraph.journal_replays` — **the journal of a run gives back the graph**.
-/
import Groundwork.Proofs.Digraph.Operations
import Mathlib.Data.Finset.Basic

set_option relaxedAutoImplicit false
set_option autoImplicit false

namespace Groundwork.Digraph

variable {V D : Type}

/-! ### Sketches -/

/-- What an observer knows of a graph. -/
@[ext]
structure Sketch where
  /-- The ids of the vertices. -/
  ids : Finset String := ∅
  /-- The ends of the edges. -/
  pairs : Finset (String × String) := ∅
deriving DecidableEq

namespace Sketch

/-- The sketch after an announcement.  There is none if the announcement does not fit: what is added
has to be new, what is removed has to be there, an edge needs both of its ends, and a vertex with an
edge cannot go. -/
def follow? (k : Sketch) : Change → Option Sketch
  | .vertexAdded id => if id ∉ k.ids then some { k with ids := insert id k.ids } else none
  | .edgeAdded s t =>
    if s ∈ k.ids ∧ t ∈ k.ids ∧ (s, t) ∉ k.pairs then some { k with pairs := insert (s, t) k.pairs }
    else none
  | .edgeRemoved s t =>
    if (s, t) ∈ k.pairs then some { k with pairs := k.pairs.erase (s, t) } else none
  | .vertexRemoved id =>
    if id ∈ k.ids ∧ ∀ e ∈ k.pairs, e.1 ≠ id ∧ e.2 ≠ id then some { k with ids := k.ids.erase id }
    else none

/-- The sketch after announcements in turn, all of which have to fit. -/
def replay? (k : Sketch) (l : List Change) : Option Sketch := l.foldlM follow? k

@[simp] theorem replay?_nil (k : Sketch) : k.replay? [] = some k := rfl

theorem replay?_cons (k : Sketch) (c : Change) (l : List Change) :
    k.replay? (c :: l) = (k.follow? c).bind (·.replay? l) := List.foldlM_cons

theorem replay?_singleton (k : Sketch) (c : Change) : k.replay? [c] = k.follow? c := by
  rw [replay?_cons]
  exact Option.bind_fun_some _

theorem replay?_append (k : Sketch) (l l' : List Change) :
    k.replay? (l ++ l') = (k.replay? l).bind (·.replay? l') := List.foldlM_append

/-- Pairs that are there can be removed one after another, each of them once. -/
theorem replay?_edgeRemoved (k : Sketch) {l : List (String × String)} (hnodup : l.Nodup)
    (hmem : ∀ e ∈ l, e ∈ k.pairs) :
    k.replay? (l.map fun e => .edgeRemoved e.1 e.2) =
      some { k with pairs := k.pairs \ l.toFinset } := by
  induction l generalizing k with
  | nil => simp
  | cons e l ih =>
      rw [List.nodup_cons] at hnodup
      have hfollow : k.follow? (.edgeRemoved e.1 e.2) = some { k with pairs := k.pairs.erase e } :=
        if_pos (hmem e List.mem_cons_self)
      have hrest : ∀ e' ∈ l, e' ∈ k.pairs.erase e := by
        intro e' he'
        refine Finset.mem_erase.2 ⟨?_, hmem e' (List.mem_cons_of_mem e he')⟩
        rintro rfl
        exact hnodup.1 he'
      rw [List.map_cons, replay?_cons, hfollow, Option.bind_some, ih _ hnodup.2 hrest,
        List.toFinset_cons, Finset.sdiff_insert, Finset.erase_sdiff_comm]

end Sketch

/-- The ends of an edge. -/
def Arc.pair (a : Arc D) : String × String := (a.source, a.target)

/-- The sketch of a graph. -/
def sketch (g : Digraph V D) : Sketch where
  ids := g.ids.toFinset
  pairs := (g.arcs.map Arc.pair).toFinset

@[simp] theorem mem_ids_sketch {g : Digraph V D} {x : String} :
    x ∈ g.sketch.ids ↔ g.contains x = true := by
  rw [sketch, List.mem_toFinset, mem_ids_iff]

@[simp] theorem mem_pairs_sketch {g : Digraph V D} {s t : String} :
    (s, t) ∈ g.sketch.pairs ↔ g.Adj s t := by
  simp [sketch, Arc.pair, Adj]

/-- A graph has a sketch if it has its vertices and its edges. -/
theorem eq_sketch {g : Digraph V D} {k : Sketch} (hids : ∀ x, x ∈ k.ids ↔ g.contains x = true)
    (hpairs : ∀ s t, (s, t) ∈ k.pairs ↔ g.Adj s t) : k = g.sketch := by
  refine Sketch.ext (Finset.ext fun x => ?_) (Finset.ext fun e => ?_)
  · rw [hids, mem_ids_sketch]
  · rw [hpairs, mem_pairs_sketch]

/-! ### Announcements -/

/-- What an operation announces. -/
def Operation.changes : Operation V D → Digraph V D → List Change
  | insertVertex id _, g => g.insertVertexChanges id
  | eraseVertex id, g => g.eraseVertexChanges id
  | connect s t _, g => g.connectChanges s t
  | disconnect s t, g => g.disconnectChanges s t
  | modify _ _ _, _ => []

/-- The operation is refused, or changes nothing but values and properties. -/
inductive Operation.Idle (g : Digraph V D) : Operation V D → Prop where
  /-- The vertex is there and gets a new value. -/
  | overwritten {id : String} (value : V) :
      g.contains id = true → Idle g (.insertVertex id value)
  /-- There is no vertex to remove. -/
  | vertexMissing {id : String} : g.contains id = false → Idle g (.eraseVertex id)
  /-- An end of the edge is missing. -/
  | endMissing {s t : String} (p : Properties D) :
      g.contains s = false ∨ g.contains t = false → Idle g (.connect s t p)
  /-- The edge is there, and properties are merged into it. -/
  | merged {s t : String} (p : Properties D) : g.hasEdge s t = true → Idle g (.connect s t p)
  /-- There is no edge to remove. -/
  | edgeMissing {s t : String} : g.hasEdge s t = false → Idle g (.disconnect s t)
  | modified (s t : String) (f : Properties D → Properties D) : Idle g (.modify s t f)

/-- Exactly the idle operations announce nothing. -/
theorem changes_eq_nil_iff {op : Operation V D} {g : Digraph V D} :
    op.changes g = [] ↔ op.Idle g := by
  constructor
  · intro h
    cases op with
    | insertVertex id v =>
        simp only [Operation.changes, insertVertexChanges, ite_eq_left_iff] at h
        exact .overwritten v (by simpa using h)
    | eraseVertex id =>
        simp only [Operation.changes, eraseVertexChanges] at h
        exact .vertexMissing (by simpa using h)
    | connect s t p =>
        simp only [Operation.changes, connectChanges, ite_eq_right_iff] at h
        cases hedge : g.hasEdge s t with
        | true => exact .merged p hedge
        | false => exact .endMissing p (by simpa [hedge, or_iff_not_imp_left] using h)
    | disconnect s t =>
        simp only [Operation.changes, disconnectChanges] at h
        exact .edgeMissing (by simpa using h)
    | modify s t f => exact .modified s t f
  · intro h
    cases h with
    | overwritten v h => exact if_pos h
    | vertexMissing h => simp [Operation.changes, eraseVertexChanges, h]
    | endMissing p h =>
        rcases h with h | h <;> simp [Operation.changes, connectChanges, h]
    | merged p h => simp [Operation.changes, connectChanges, h]
    | edgeMissing h => simp [Operation.changes, disconnectChanges, h]
    | modified s t f => rfl

/-! ### Vertices that go -/

section Incident

variable {g : Digraph V D}

theorem WellFormed.pairs_nodup (h : g.WellFormed) : (g.arcs.map Arc.pair).Nodup :=
  List.pairwise_map.2 (h.simple.imp fun hne heq => hne (Prod.mk.inj heq))

/-- No edge at a vertex is met twice, although a loop is in both listings. -/
theorem WellFormed.incident_pairs_nodup (h : g.WellFormed) (id : String) :
    ((g.incident id).map Arc.pair).Nodup := by
  have hperm := ((Numbered.incident_append_perm g id).map Arc.pair).nodup_iff.2 h.pairs_nodup
  rw [List.map_append] at hperm
  exact hperm.of_append_left

theorem mem_incident_pairs {id s t : String} :
    (s, t) ∈ (g.incident id).map Arc.pair ↔ g.Adj s t ∧ (s = id ∨ t = id) := by
  simp only [incident, arcsAt, Arc.near, List.mem_map, List.mem_append, List.mem_filter,
    beq_iff_eq, bne_iff_ne, Arc.pair, Prod.mk.injEq, Adj]
  constructor
  · rintro ⟨a, hleaves | ⟨henters, -⟩, rfl, rfl⟩
    · exact ⟨⟨a, hleaves.1, rfl, rfl⟩, Or.inl hleaves.2⟩
    · exact ⟨⟨a, henters.1, rfl, rfl⟩, Or.inr henters.2⟩
  · rintro ⟨⟨a, ha, rfl, rfl⟩, htouch⟩
    by_cases hs : a.source = id
    · exact ⟨a, Or.inl ⟨ha, hs⟩, rfl, rfl⟩
    · exact ⟨a, Or.inr ⟨⟨ha, htouch.resolve_left hs⟩, hs⟩, rfl, rfl⟩

/-- A vertex that goes is announced after its edges, each of which is announced once. -/
theorem eraseVertexChanges_eq {id : String} (hid : g.contains id = true) :
    g.eraseVertexChanges id =
      ((g.incident id).map Arc.pair).map (fun e => .edgeRemoved e.1 e.2) ++
        [.vertexRemoved id] := by
  rw [eraseVertexChanges, if_pos hid, List.map_map]
  rfl

theorem WellFormed.replay?_eraseVertexChanges (h : g.WellFormed) {id : String}
    (hid : g.contains id = true) :
    g.sketch.replay? (g.eraseVertexChanges id) = some (g.eraseVertex id).sketch := by
  let pairs := (g.incident id).map Arc.pair
  have hthere : ∀ e ∈ pairs, e ∈ g.sketch.pairs := fun e he =>
    mem_pairs_sketch.2 (mem_incident_pairs.1 he).1
  -- once the edges at the vertex have gone, none is left that would keep it
  have hbare : ∀ e ∈ g.sketch.pairs \ pairs.toFinset, e.1 ≠ id ∧ e.2 ≠ id := by
    rintro ⟨s, t⟩ he
    rw [Finset.mem_sdiff, mem_pairs_sketch, List.mem_toFinset, mem_incident_pairs] at he
    exact not_or.1 fun htouch => he.2 ⟨he.1, htouch⟩
  rw [eraseVertexChanges_eq hid, Sketch.replay?_append,
    Sketch.replay?_edgeRemoved _ (h.incident_pairs_nodup id) hthere, Option.bind_some,
    Sketch.replay?_singleton, Sketch.follow?, if_pos ⟨mem_ids_sketch.2 hid, hbare⟩]
  refine congrArg some (eq_sketch (fun x => ?_) fun s t => ?_)
  · rw [Finset.mem_erase, mem_ids_sketch, contains_eraseVertex]
  · rw [Finset.mem_sdiff, mem_pairs_sketch, List.mem_toFinset, mem_incident_pairs,
      adj_eraseVertex]
    tauto

end Incident

/-! ### One operation -/

section Perform

variable {g : Digraph V D}

theorem replay?_insertVertexChanges (g : Digraph V D) (id : String) (v : V) :
    g.sketch.replay? (g.insertVertexChanges id) = some (g.insertVertex id v).sketch := by
  unfold insertVertexChanges
  split
  case isTrue hid =>
      refine congrArg some (eq_sketch (fun x => ?_) fun s t => mem_pairs_sketch)
      rw [mem_ids_sketch, contains_insertVertex]
      constructor
      · exact Or.inr
      · rintro (rfl | hx)
        · exact hid
        · exact hx
  case isFalse hid =>
      rw [Sketch.replay?_singleton, Sketch.follow?, if_pos (mem_ids_sketch.not.2 hid)]
      refine congrArg some (eq_sketch (fun x => ?_) fun s t => mem_pairs_sketch)
      rw [Finset.mem_insert, mem_ids_sketch, contains_insertVertex]

theorem replay?_connectChanges (g : Digraph V D) (s t : String) (p : Properties D) :
    g.sketch.replay? (g.connectChanges s t) = some (g.connect s t p).sketch := by
  have hids : ∀ x, x ∈ g.sketch.ids ↔ (g.connect s t p).contains x = true := by
    intro x
    rw [mem_ids_sketch, contains_connect]
  unfold connectChanges
  split
  case isTrue h =>
      simp only [Bool.and_eq_true, Bool.not_eq_true', hasEdge_eq_false_iff] at h
      obtain ⟨⟨hs, ht⟩, hnew⟩ := h
      have hfits : s ∈ g.sketch.ids ∧ t ∈ g.sketch.ids ∧ (s, t) ∉ g.sketch.pairs :=
        ⟨mem_ids_sketch.2 hs, mem_ids_sketch.2 ht, mem_pairs_sketch.not.2 hnew⟩
      rw [Sketch.replay?_singleton, Sketch.follow?, if_pos hfits]
      refine congrArg some (eq_sketch hids fun x y => ?_)
      rw [Finset.mem_insert, mem_pairs_sketch, adj_connect, Prod.mk.injEq]
      tauto
  case isFalse h =>
      simp only [Bool.and_eq_true, Bool.not_eq_true', hasEdge_eq_false_iff, not_and, not_not] at h
      refine congrArg some (eq_sketch hids fun x y => ?_)
      rw [mem_pairs_sketch, adj_connect]
      constructor
      · exact Or.inl
      · rintro (hold | ⟨rfl, rfl, hs, ht⟩)
        · exact hold
        · exact h ⟨hs, ht⟩

theorem replay?_disconnectChanges {g' : Digraph V D} {s t : String} {p : Properties D}
    (h : g.disconnect s t = .ok (p, g')) :
    g.sketch.replay? (g.disconnectChanges s t) = some g'.sketch := by
  have hst : g.Adj s t := (of_disconnect h).1
  rw [disconnectChanges, if_pos (hasEdge_iff.2 hst), Sketch.replay?_singleton, Sketch.follow?,
    if_pos (mem_pairs_sketch.2 hst)]
  refine congrArg some (eq_sketch (fun x => ?_) fun x y => ?_)
  · rw [mem_ids_sketch, contains_of_disconnect h]
  · rw [Finset.mem_erase, mem_pairs_sketch, adj_of_disconnect h, ne_eq, Prod.mk.injEq, and_comm]

/-- **The announcements of an operation fit the sketch of the graph**, and lead from it to the
sketch of the graph after the operation. -/
theorem WellFormed.replay?_changes (h : g.WellFormed) (op : Operation V D) :
    g.sketch.replay? (op.changes g) = some (op.perform g).2.sketch := by
  cases op with
  | insertVertex id v => exact replay?_insertVertexChanges g id v
  | eraseVertex id =>
      cases hid : g.contains id with
      | true => exact h.replay?_eraseVertexChanges hid
      | false =>
          rw [Operation.changes, eraseVertexChanges, hid]
          refine congrArg some (eq_sketch (fun x => ?_) fun s t => ?_)
          · rw [mem_ids_sketch, Operation.perform, contains_eraseVertex]
            refine (and_iff_right_of_imp ?_).symm
            rintro hx rfl
            exact absurd hx (by simp [hid])
          · rw [mem_pairs_sketch, Operation.perform, adj_eraseVertex]
            refine (and_iff_left_of_imp fun hst => ?_).symm
            obtain ⟨hs, ht⟩ := h.contains_of_adj hst
            constructor
            · rintro rfl
              simp [hid] at hs
            · rintro rfl
              simp [hid] at ht
  | connect s t p => exact replay?_connectChanges g s t p
  | disconnect s t =>
      rw [Operation.perform]
      split
      case h_1 hok => exact replay?_disconnectChanges hok
      case h_2 herror =>
          have hnone : g.hasEdge s t = false := by
            rw [hasEdge_eq_false_iff]
            intro hst
            obtain ⟨p, g', hok⟩ := disconnect_of_adj hst
            cases hok.symm.trans herror
          rw [Operation.changes, disconnectChanges, hnone]
          rfl
  | modify s t f =>
      refine congrArg some (eq_sketch (fun x => mem_ids_sketch) fun x y => ?_)
      rw [mem_pairs_sketch, Operation.perform, adj_modifyProperties]

end Perform

/-! ### Graphs under an observer -/

/-- A graph and what its observer has noted. -/
structure Watched (V D : Type) where
  graph : Digraph V D := {}
  /-- The announcements so far, the earliest first. -/
  journal : List Change := []

/-- An operation on a graph whose observer notes every announcement. -/
def Operation.watch (op : Operation V D) (w : Watched V D) : Reply V D × Watched V D :=
  let (reply, graph) := op.perform w.graph
  (reply, { graph, journal := w.journal ++ op.changes w.graph })

/-- An observer does not disturb the graph. -/
theorem inTurn_watch (ops : List (Operation V D)) (w : Watched V D) :
    (inTurn Operation.watch ops w).1 = (inTurn Operation.perform ops w.graph).1 ∧
      (inTurn Operation.watch ops w).2.graph = (inTurn Operation.perform ops w.graph).2 := by
  induction ops generalizing w with
  | nil => exact ⟨rfl, rfl⟩
  | cons op ops ih =>
      obtain ⟨hreplies, hgraph⟩ := ih (op.watch w).2
      exact ⟨congrArg (List.cons _) hreplies, hgraph⟩

/-- The journal gives back the graph. -/
structure Watched.Faithful (w : Watched V D) : Prop where
  wellFormed : w.graph.WellFormed
  replay : Sketch.replay? {} w.journal = some w.graph.sketch

theorem Watched.faithful_start : ({} : Watched V D).Faithful :=
  ⟨wellFormed_empty, rfl⟩

theorem Operation.faithful_watch (op : Operation V D) {w : Watched V D} (h : w.Faithful) :
    (op.watch w).2.Faithful where
  wellFormed := op.wellFormed_perform h.wellFormed
  replay := by
    change Sketch.replay? {} (w.journal ++ op.changes w.graph) = _
    rw [Sketch.replay?_append, h.replay, Option.bind_some, h.wellFormed.replay?_changes]
    rfl

/-- **The journal of a run gives back the graph.**  Whatever was done since the graph was empty,
replaying the journal on the empty sketch meets no announcement that does not fit, and ends with the
ids and the edges of the graph.  The same holds for what any next operation adds to the journal,
which is nothing exactly if the operation is idle.  A vertex is announced to be gone after its
edges, a loop among them, and each of these is announced once. -/
theorem journal_replays (ops : List (Operation V D)) :
    let w := (inTurn Operation.watch ops ({} : Watched V D)).2
    w.graph = (inTurn Operation.perform ops {}).2 ∧
      Sketch.replay? {} w.journal = some w.graph.sketch ∧
      (∀ op : Operation V D, (op.watch w).2.journal = w.journal ++ op.changes w.graph ∧
        w.graph.sketch.replay? (op.changes w.graph) = some (op.perform w.graph).2.sketch ∧
        (op.changes w.graph = [] ↔ op.Idle w.graph)) ∧
      ∀ id, w.graph.contains id = true → ∃ pairs : List (String × String), pairs.Nodup ∧
        (∀ s t, (s, t) ∈ pairs ↔ w.graph.hasEdge s t = true ∧ (s = id ∨ t = id)) ∧
        Operation.changes (.eraseVertex id) w.graph =
          pairs.map (fun e => .edgeRemoved e.1 e.2) ++ [.vertexRemoved id] := by
  intro w
  have h : w.Faithful := of_inTurn (fun op _ => op.faithful_watch) ops Watched.faithful_start
  refine ⟨(inTurn_watch ops {}).2, h.replay, fun op => ?_, fun id hid => ?_⟩
  · exact ⟨rfl, h.wellFormed.replay?_changes op, changes_eq_nil_iff⟩
  · refine ⟨_, h.wellFormed.incident_pairs_nodup id, fun s t => ?_, eraseVertexChanges_eq hid⟩
    rw [hasEdge_iff]
    exact mem_incident_pairs

/-- A loop and two edges that go both ways are announced once each, before their vertex. -/
example :
    let g : Digraph Unit Unit := (inTurn Operation.perform
      [.insertVertex "a" (), .insertVertex "b" (), .connect "a" "a" {}, .connect "a" "b" {},
        .connect "b" "a" {}] {}).2
    Operation.changes (.eraseVertex "a") g =
      [.edgeRemoved "a" "b", .edgeRemoved "a" "a", .edgeRemoved "b" "a", .vertexRemoved "a"] := by
  decide

end Groundwork.Digraph
