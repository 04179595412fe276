/-
Paths with the fewest edges.

The search for a path is a walk that notes where it found each vertex from.  Since the walk keeps to
the order of distances, a vertex was found from one that is nearer by one step.  So the way back
comes nearer to the start with every step, and ends there: the start itself was not found from
anywhere.

Main definitions:

* `Groundwork.Digraph.IsPath` — a list of vertices, each of them one step behind the one before it;
* `Groundwork.Digraph.Tracked` — a walk in the order of distances, and where it found its vertices
  from;
* `Groundwork.Digraph.Retraces` — the way back from a vertex, without a bound on its steps.

Main results:

* `Groundwork.Digraph.Tracked.leave` — what leaving a vertex keeps;
* `Groundwork.Digraph.WellFormed.sought_predecessors` — a search stops at its goal, or has found
  everything that can be reached;
* `Groundwork.Digraph.Tracked.exists_retraces` — the way back ends at the start;
* `Groundwork.Digraph.shortestPath_fewest` — **a path is found exactly if there is one, and no path
  has fewer edges**.
-/
import Groundwork.Proofs.Digraph.Operations

set_option relaxedAutoImplicit false
set_option autoImplicit false

namespace Groundwork.Digraph

open Relation

variable {V D : Type}

/-! ### Paths -/

/-- The vertices of a path from `x` to `y`, both included. -/
structure IsPath (r : String → String → Prop) (x y : String) (path : List String) : Prop where
  head : path.head? = some x
  last : path.getLast? = some y
  linked : path.IsChain r

section IsPath

variable {r : String → String → Prop} {x y : String} {path : List String}

/-- A path makes one step less than it has vertices. -/
theorem hops_of_isChain {l : List String} (hhead : (l ++ [y]).head? = some x)
    (hlinked : (l ++ [y]).IsChain r) : Hops r x l.length y := by
  induction l using List.reverseRecOn generalizing y with
  | nil =>
      obtain rfl := Option.some_inj.1 hhead
      exact .here
  | append_singleton l u ih =>
      have hstep : r u y := by simpa using (List.isChain_append.1 hlinked).2.2
      rw [List.head?_append_of_ne_nil _ (by simp)] at hhead
      rw [List.length_append, List.length_singleton]
      exact (ih hhead (List.isChain_append.1 hlinked).1).step hstep

/-- No path is shorter than its ends are apart. -/
theorem IsPath.distance_lt (h : IsPath r x y path) : distance r x y < path.length := by
  obtain ⟨l, rfl⟩ := List.getLast?_eq_some_iff.1 h.last
  rw [List.length_append, List.length_singleton]
  exact Nat.lt_succ_of_le (hops_of_isChain h.head h.linked).distance_le

/-- The vertices of a path, from its end. -/
theorem IsPath.reverse (h : IsPath (fun a b => r b a) y x path) : IsPath r x y path.reverse where
  head := List.head?_reverse.trans h.last
  last := List.getLast?_reverse.trans h.head
  linked := List.isChain_reverse.2 h.linked

end IsPath

/-! ### The way back -/

/-- The way back from a vertex, through what each vertex was found from, to one that was not found
from any. -/
inductive Retraces (previous : Table String String) : String → List String → Prop
  | ended {x : String} : previous.get? x = none → Retraces previous x [x]
  | back {x u : String} {path : List String} :
      previous.get? x = some u → Retraces previous u path → Retraces previous x (x :: path)

namespace Retraces

variable {previous : Table String String} {x : String} {path : List String}

theorem head? (h : Retraces previous x path) : path.head? = some x := by
  cases h with
  | ended => rfl
  | back => rfl

/-- Each vertex on the way back was found from the one after it. -/
theorem isChain (h : Retraces previous x path) :
    path.IsChain fun a b => previous.get? a = some b := by
  induction h with
  | @ended x _ => exact List.isChain_singleton x
  | @back x u path hx hu ih =>
      refine List.isChain_cons.2 ⟨fun y hy => ?_, ih⟩
      rw [hu.head?] at hy
      exact hx.trans hy

/-- All vertices on the way back but the last one were found from others. -/
theorem contains_of_mem_dropLast (h : Retraces previous x path) :
    ∀ y ∈ path.dropLast, previous.contains y = true := by
  induction h with
  | ended => exact fun y hy => absurd hy List.not_mem_nil
  | @back x u path hx hu ih =>
      have hne : path ≠ [] := by
        rintro rfl
        exact nomatch hu
      rw [List.dropLast_cons_of_ne_nil hne, List.forall_mem_cons]
      exact ⟨Table.contains_iff.2 ⟨u, hx⟩, ih⟩

/-- A way back on which no vertex comes twice takes no more steps than there are entries. -/
theorem length_le (h : Retraces previous x path) (hnodup : path.Nodup) :
    path.length ≤ previous.size + 1 := by
  have hkeys : path.dropLast ⊆ previous.keys := fun y hy =>
    Table.mem_keys_iff.2 (h.contains_of_mem_dropLast y hy)
  have hlength := ((hnodup.sublist path.dropLast_sublist).subperm hkeys).length_le
  rw [List.length_dropLast, Table.keys, List.length_map] at hlength
  exact Nat.le_add_of_sub_le hlength

/-- With steps enough the way back is walked to its end. -/
theorem retrace_eq {n : ℕ} (h : Retraces previous x path) (hn : path.length ≤ n + 1) :
    retrace previous n x = path := by
  induction h generalizing n with
  | @ended x hx => cases n <;> simp [retrace, hx]
  | @back x u path hx hu ih =>
      cases n with
      | zero =>
          have hnil : path = [] := by simpa using hn
          subst hnil
          exact nomatch hu
      | succ n =>
          rw [List.length_cons] at hn
          rw [retrace, hx]
          exact congrArg (x :: ·) (ih (Nat.le_of_succ_le_succ hn))

end Retraces

/-! ### A search and what it notes -/

/-- A walk from `s` in the order of distances has noted where it found its vertices from. -/
structure Tracked (r : String → String → Prop) (s : String) (done queue : List String)
    (previous : Table String String) : Prop extends Layered r s done queue where
  /-- The start was not found from anywhere, but all the others were. -/
  known : ∀ x, previous.contains x = true ↔ x ∈ done ++ queue ∧ x ≠ s
  nearer : ∀ x u, previous.get? x = some u →
    u ∈ done ++ queue ∧ r u x ∧ distance r s x = distance r s u + 1

namespace Tracked

variable {r : String → String → Prop} {s v x : String} {done queue : List String}
  {previous : Table String String}

theorem start (r : String → String → Prop) (s : String) : Tracked r s [] [s] ∅ where
  toLayered := Layered.start r s
  known x := by simp [Table.contains_eq_isSome]
  nearer x u h := nomatch h

/-- What a walk has found is its start or something that it has noted. -/
theorem mem_iff_known (h : Tracked r s done queue previous) :
    x ∈ done ++ queue ↔ x = s ∨ previous.contains x = true := by
  rw [h.known x]
  constructor
  · exact fun hx => (em (x = s)).imp_right fun hne => ⟨hx, hne⟩
  · rintro (rfl | hx)
    · exact h.start_mem
    · exact hx.1

/-- **A vertex is left**, and what is new next to it was found from it. -/
theorem leave {new : List String} (h : Tracked r s done (v :: queue) previous) (hnodup : new.Nodup)
    (hnew : ∀ x, x ∈ new ↔ r v x ∧ x ≠ s ∧ previous.contains x = false) :
    Tracked r s (done ++ [v]) (queue ++ new) (previous.insertMany (new.map (·, v))) := by
  have hshift : (done ++ [v]) ++ (queue ++ new) = done ++ v :: queue ++ new := by simp
  have hunknown : ∀ x, x ∈ new ↔ r v x ∧ x ∉ done ++ v :: queue := by
    intro x
    rw [hnew, h.mem_iff_known, not_or, Bool.not_eq_true]
  refine ⟨h.toLayered.leave hnodup hunknown, fun x => ?_, fun x u hu => ?_⟩
  · rw [Table.contains_eq_isSome, Table.get?_insertMany_map, hshift, List.mem_append]
    by_cases hx : x ∈ new
    · simp [hx, ((hnew x).1 hx).2.1]
    · rw [if_neg hx, ← Table.contains_eq_isSome, h.known, or_iff_left hx]
  · rw [Table.get?_insertMany_map] at hu
    rw [hshift]
    split at hu
    case isTrue hx =>
        obtain rfl := Option.some_inj.1 hu
        have hvx := (hunknown x).1 hx
        exact ⟨List.mem_append_left _ (by simp), hvx.1, h.distance_eq_succ hvx.1 hvx.2⟩
    case isFalse hx =>
        obtain ⟨hmem, hux, hdistance⟩ := h.nearer x u hu
        exact ⟨List.mem_append_left _ hmem, hux, hdistance⟩

/-- **The way back ends at the start**, after as many steps as the vertex is away. -/
theorem exists_retraces (h : Tracked r s done queue previous) (hx : x ∈ done ++ queue) :
    ∃ path, Retraces previous x path ∧ path.getLast? = some s ∧
      path.length = distance r s x + 1 := by
  -- the induction is on the distance, which is smaller for the vertex that `x` was found from
  induction hn : distance r s x using Nat.strong_induction_on generalizing x with
  | _ n ih =>
      cases hget : previous.get? x with
      | none =>
          have hunknown : ¬ previous.contains x = true := by
            rw [Table.contains_eq_isSome, hget]
            exact Bool.false_ne_true
          obtain rfl : x = s := (h.mem_iff_known.1 hx).resolve_right hunknown
          rw [distance_self] at hn
          exact ⟨[x], .ended hget, rfl, congrArg (· + 1) hn⟩
      | some u =>
          obtain ⟨hu, -, hdistance⟩ := h.nearer x u hget
          obtain ⟨path, hpath, hlast, hlength⟩ := ih (distance r s u) (by omega) hu rfl
          refine ⟨x :: path, .back hget hpath, ?_, ?_⟩
          · rw [List.getLast?_cons, hlast]
            rfl
          · rw [List.length_cons, hlength, ← hdistance, hn]

/-- No vertex comes twice on a way back, since each one is nearer to the start than those before. -/
theorem nodup_of_retraces {path : List String} (h : Tracked r s done queue previous)
    (hpath : Retraces previous x path) : path.Nodup := by
  have hnearer : path.IsChain fun a b => distance r s b < distance r s a :=
    hpath.isChain.imp fun a b hab => by
      rw [(h.nearer a b hab).2.2]
      exact Nat.lt_succ_self _
  have htrans : IsTrans String fun a b => distance r s b < distance r s a :=
    ⟨fun _ _ _ hab hbc => hbc.trans hab⟩
  refine (List.isChain_iff_pairwise.1 hnearer).imp ?_
  rintro a b hlt rfl
  exact lt_irrefl _ hlt

/-- The way back follows the edges backwards. -/
theorem isPath_of_retraces {path : List String} (h : Tracked r s done queue previous)
    (hpath : Retraces previous x path) (hlast : path.getLast? = some s) :
    IsPath r s x path.reverse :=
  IsPath.reverse ⟨hpath.head?, hlast, hpath.isChain.imp fun a b hab => (h.nearer a b hab).2.1⟩

end Tracked

/-- A search from `s` has stopped at its goal, or it has left all that it has found, and its goal is
not among these vertices. -/
inductive Sought (r : String → String → Prop) (s goal : String) :
    Option (Table String String) → Prop
  | arrived {done queue : List String} {previous : Table String String} :
      Tracked r s done (goal :: queue) previous → Sought r s goal (some previous)
  | exhausted {done : List String} {previous : Table String String} :
      Tracked r s done [] previous → goal ∉ done → Sought r s goal none

/-- A search with steps enough for its queue and for the edges still ahead comes to an end. -/
theorem WellFormed.sought_predecessorsFrom {g : Digraph V D} (hg : g.WellFormed) {s goal : String}
    (n : ℕ) (queue done : List String) (previous : Table String String)
    (hn : queue.length + g.ahead .outgoing done ≤ n) (h : Tracked g.Adj s done queue previous)
    (hgoal : goal ∉ done) :
    Sought g.Adj s goal (predecessorsFrom (g.adjacent .outgoing) s goal n queue previous) := by
  induction n generalizing queue done previous with
  | zero =>
      have hqueue : queue = [] := List.length_eq_zero_iff.1 (by omega)
      subst hqueue
      exact .exhausted h hgoal
  | succ n ih =>
      cases queue with
      | nil => exact .exhausted h hgoal
      | cons v queue =>
          rw [predecessorsFrom]
          split
          case isTrue hv =>
              subst hv
              exact .arrived h
          case isFalse hne =>
              have hv : v ∉ done := fun hmem =>
                (List.nodup_append.1 h.nodup).2.2 v hmem v List.mem_cons_self rfl
              refine ih _ _ _ (length_append_add_ahead_le g .outgoing hv
                (List.length_filter_le _ _) hn) (h.leave ((hg.adjacent_nodup _ v).filter _) ?_) ?_
              · intro x
                simp [List.mem_filter, mem_adjacent_outgoing]
              · rw [List.mem_append, List.mem_singleton]
                exact fun hmem => hmem.elim hgoal (Ne.symm hne)

/-- A search from a vertex comes to an end. -/
theorem WellFormed.sought_predecessors {g : Digraph V D} (hg : g.WellFormed) (s goal : String) :
    Sought g.Adj s goal (g.predecessors s goal) :=
  hg.sought_predecessorsFrom (g.size + 1) [s] [] ∅ (by simp [ahead_le_size, Nat.add_comm])
    (Tracked.start _ s) List.not_mem_nil

section Sought

variable {r : String → String → Prop} {s goal : String}

theorem Sought.isSome_iff {result : Option (Table String String)} (h : Sought r s goal result) :
    result.isSome = true ↔ ReflTransGen r s goal := by
  cases h with
  | arrived h => simpa using h.reached goal (by simp)
  | exhausted h hgoal => simpa [h.mem_iff] using hgoal

/-- A search that stops at its goal has noted where it found its vertices from. -/
theorem Sought.tracked {previous : Table String String} (h : Sought r s goal (some previous)) :
    ∃ done queue, Tracked r s done (goal :: queue) previous := by
  cases h with
  | arrived h => exact ⟨_, _, h⟩

end Sought

/-! ### The path that is found -/

/-- A path is found exactly between vertices of which one can be reached from the other. -/
theorem WellFormed.isSome_shortestPath_iff {g : Digraph V D} (hg : g.WellFormed) (a b : String) :
    (g.shortestPath a b).isSome = true ↔
      g.contains a = true ∧ g.contains b = true ∧ ReflTransGen g.Adj a b := by
  rw [shortestPath, ← (hg.sought_predecessors a b).isSome_iff, ← and_assoc, ← Bool.and_eq_true]
  split
  case isTrue hends => simp [hends]
  case isFalse hends => simp [hends]

/-- **A path is found exactly if there is one, and no path has fewer edges.**  The way back, which
is this path from its end, ends at the start of the search, and so does every other way back. -/
theorem shortestPath_fewest (ops : List (Operation V D)) (a b : String) :
    let g := (inTurn Operation.perform ops ({} : Digraph V D)).2
    ((g.shortestPath a b).isSome = true ↔
      g.contains a = true ∧ g.contains b = true ∧ ReflTransGen g.Adj a b) ∧
    ∀ path, g.shortestPath a b = some path →
      IsPath g.Adj a b path ∧ path.Nodup ∧
      (∀ other, IsPath g.Adj a b other → path.length ≤ other.length) ∧
      ∃ previous, g.predecessors a b = some previous ∧ Retraces previous b path.reverse ∧
        ∀ x, previous.contains x = true →
          ∃ back, Retraces previous x back ∧ back.getLast? = some a := by
  intro g
  have hg : g.WellFormed := wellFormed_inTurn ops
  refine ⟨hg.isSome_shortestPath_iff a b, fun path hpath => ?_⟩
  obtain ⟨previous, hprevious, hretrace⟩ : ∃ previous, g.predecessors a b = some previous ∧
      (retrace previous previous.size b).reverse = path := by
    rw [shortestPath] at hpath
    split at hpath
    case isTrue => exact Option.map_eq_some_iff.1 hpath
    case isFalse => cases hpath
  obtain ⟨done, queue, h⟩ := (hprevious ▸ hg.sought_predecessors a b).tracked
  obtain ⟨back, hback, hlast, hlength⟩ := h.exists_retraces (x := b) (by simp)
  have hnodup : back.Nodup := h.nodup_of_retraces hback
  rw [hback.retrace_eq (hback.length_le hnodup)] at hretrace
  subst hretrace
  refine ⟨h.isPath_of_retraces hback hlast, List.nodup_reverse.2 hnodup, fun other hother => ?_,
    previous, hprevious, ?_, fun x hx => ?_⟩
  · rw [List.length_reverse, hlength]
    exact hother.distance_lt
  · rwa [List.reverse_reverse]
  · obtain ⟨back, hback, hlast, -⟩ := h.exists_retraces ((h.known x).1 hx).1
    exact ⟨back, hback, hlast⟩

/-- A cycle of four vertices, with an edge past the second of them. -/
def shortcut : List (Operation Unit Unit) :=
  ["a", "b", "c", "d"].map (fun id => .insertVertex id ()) ++
    [("a", "b"), ("b", "c"), ("c", "d"), ("d", "a"), ("a", "c")].map fun e => .connect e.1 e.2 {}

/-- The path takes this edge, and every path has its three vertices or more. -/
theorem shortestPath_fewest_shortcut :
    let g := (inTurn Operation.perform shortcut ({} : Digraph Unit Unit)).2
    g.shortestPath "a" "d" = some ["a", "c", "d"] ∧ IsPath g.Adj "a" "d" ["a", "c", "d"] ∧
      ∀ other, IsPath g.Adj "a" "d" other → 3 ≤ other.length := by
  intro g
  have hfound : g.shortestPath "a" "d" = some ["a", "c", "d"] := by decide
  obtain ⟨hpath, -, hfewest, -⟩ := (shortestPath_fewest shortcut "a" "d").2 _ hfound
  exact ⟨hfound, hpath, hfewest⟩

end Groundwork.Digraph
