/-!
Finite maps in key order.

A `Table` is a list of entries whose keys increase strictly, so two tables that answer every
lookup alike are the same list, and listing a table needs no sorting.

## Main definitions

* `Table` — the entries together with the proof that their keys increase;
* `Table.get?`, `Table.insert`, `Table.erase` — lookup, writing and removal by key;
* `Table.keys`, `Table.values`, `Table.toList` — the listings, in key order.

## Main results

* `Table.insertEntry_sorted`, `Table.erase` — the operations keep the order of the keys.
-/

set_option autoImplicit false

namespace Groundwork

/-- A finite map from `κ` to `ν`, listed by strictly increasing key. -/
structure Table (κ ν : Type) [Ord κ] where
  /-- The entries of the map. -/
  entries : List (κ × ν)
  /-- The keys increase strictly. -/
  sorted : entries.Pairwise fun a b => compare a.1 b.1 = .lt

namespace Table

variable {κ ν μ : Type} [Ord κ]

/-- The map without entries. -/
def empty : Table κ ν := ⟨[], .nil⟩

instance : EmptyCollection (Table κ ν) := ⟨empty⟩

instance : Inhabited (Table κ ν) := ⟨empty⟩

instance [DecidableEq κ] [DecidableEq ν] : DecidableEq (Table κ ν) := fun a b =>
  decidable_of_iff (a.entries = b.entries) (by cases a; cases b; simp)

/-! ### Listings -/

/-- The entries in key order. -/
def toList (t : Table κ ν) : List (κ × ν) := t.entries

/-- The keys in order. -/
def keys (t : Table κ ν) : List κ := t.entries.map (·.1)

/-- The values in key order. -/
def values (t : Table κ ν) : List ν := t.entries.map (·.2)

/-- The number of entries. -/
def size (t : Table κ ν) : Nat := t.entries.length

/-- Whether the map has no entry. -/
def isEmpty (t : Table κ ν) : Bool := t.entries.isEmpty

/-! ### Lookup -/

/-- The value under a key. -/
def get? (t : Table κ ν) (k : κ) : Option ν :=
  (t.entries.find? fun e => compare e.1 k == .eq).map (·.2)

/-- Whether a key has a value. -/
def contains (t : Table κ ν) (k : κ) : Bool := t.entries.any fun e => compare e.1 k == .eq

/-! ### Writing -/

/-- Puts an entry at its place, over an entry with the same key. -/
def insertEntry (k : κ) (v : ν) : List (κ × ν) → List (κ × ν)
  | [] => [(k, v)]
  | (k', v') :: rest =>
    match compare k k' with
    | .lt => (k, v) :: (k', v') :: rest
    | .eq => (k, v) :: rest
    | .gt => (k', v') :: insertEntry k v rest

theorem mem_insertEntry {k : κ} {v : ν} {l : List (κ × ν)} {e : κ × ν}
    (h : e ∈ insertEntry k v l) : e = (k, v) ∨ e ∈ l := by
  induction l with
  | nil => simpa [insertEntry] using h
  | cons e' rest ih =>
    obtain ⟨k', v'⟩ := e'
    rw [insertEntry] at h
    split at h <;> grind

theorem insertEntry_sorted [Std.TransOrd κ] {k : κ} {v : ν} {l : List (κ × ν)}
    (h : l.Pairwise fun a b => compare a.1 b.1 = .lt) :
    (insertEntry k v l).Pairwise fun a b => compare a.1 b.1 = .lt := by
  induction l with
  | nil => simp [insertEntry]
  | cons e' rest ih =>
    obtain ⟨k', v'⟩ := e'
    rw [List.pairwise_cons] at h
    rw [insertEntry]
    split
    case h_1 hlt =>
      refine List.pairwise_cons.2 ⟨fun e he => ?_, List.pairwise_cons.2 h⟩
      rcases List.mem_cons.1 he with rfl | he
      · exact hlt
      · exact Std.TransCmp.lt_trans hlt (h.1 e he)
    case h_2 heq =>
      exact List.pairwise_cons.2
        ⟨fun e he => Std.TransCmp.lt_of_eq_of_lt heq (h.1 e he), h.2⟩
    case h_3 hgt =>
      refine List.pairwise_cons.2 ⟨fun e he => ?_, ih h.2⟩
      rcases mem_insertEntry he with rfl | he
      · exact Std.OrientedCmp.lt_of_gt hgt
      · exact h.1 e he

/-- Writes a value under a key, over the value that was there. -/
def insert [Std.TransOrd κ] (t : Table κ ν) (k : κ) (v : ν) : Table κ ν :=
  ⟨insertEntry k v t.entries, insertEntry_sorted t.sorted⟩

/-- Writes a value under a key that has none, and keeps the value of one that has. -/
def insertIfNew [Std.TransOrd κ] (t : Table κ ν) (k : κ) (v : ν) : Table κ ν :=
  if t.contains k then t else t.insert k v

/-- Keeps the entries that pass a test. -/
def filter (t : Table κ ν) (p : κ → ν → Bool) : Table κ ν :=
  ⟨t.entries.filter fun e => p e.1 e.2, t.sorted.filter _⟩

/-- Removes the entry of a key, if there is one. -/
def erase (t : Table κ ν) (k : κ) : Table κ ν := t.filter fun k' _ => compare k' k != .eq

/-- Changes every value and keeps the keys. -/
def map (t : Table κ ν) (f : κ → ν → μ) : Table κ μ :=
  ⟨t.entries.map fun e => (e.1, f e.1 e.2), List.pairwise_map.2 t.sorted⟩

/-- Adds entries in turn; a later entry replaces an earlier one of the same key. -/
def insertMany [Std.TransOrd κ] (t : Table κ ν) (l : List (κ × ν)) : Table κ ν :=
  l.foldl (fun t e => t.insert e.1 e.2) t

/-- The map with the given entries, later ones winning. -/
def ofList [Std.TransOrd κ] (l : List (κ × ν)) : Table κ ν := empty.insertMany l

end Table

end Groundwork
