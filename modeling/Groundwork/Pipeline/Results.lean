/-
What a compilation produces.

The stages of a compilation share two stores: the results, each under a key, and the dependencies
between keys.  Both are listed in the order of their keys.

* `ResultKey` — a kind and a name; `Keyed` — the types of results, which know their keys;
* `Results` — results by key; `Results.update` — changes the result under one key;
* `Dependency`, `Dependencies` — dependencies between keys.
-/
import Groundwork.Datum
import Groundwork.Text.Quoted

set_option autoImplicit false

namespace Groundwork

/-! ### Keys -/

/-- The key of a result. -/
structure ResultKey where
  /-- The category of the result. -/
  kind : String
  /-- Its name, unique in the category. -/
  name : String
deriving DecidableEq, Inhabited

namespace ResultKey

/-- The texts by which keys are ordered. -/
def texts (k : ResultKey) : List String := [k.kind, k.name]

instance : Ord ResultKey := ⟨compareOn texts⟩

instance : Std.TransOrd ResultKey := inferInstanceAs (Std.TransCmp (compareOn texts))

theorem ext_texts {a b : ResultKey} (h : a.texts = b.texts) : a = b := by
  cases a; cases b; simp_all [texts]

instance : Std.LawfulEqOrd ResultKey where
  eq_of_compare {a b} h :=
    have h : compare a.texts b.texts = .eq := h
    ext_texts (Std.LawfulEqOrd.eq_of_compare h)

/-- A key in one text. -/
def text (k : ResultKey) : String := k.kind ++ ":" ++ k.name

/-- A key for logs. -/
def summary (k : ResultKey) : String :=
  "ResourceKey \x7b kind: " ++ Text.quoted k.kind ++ ", name: " ++ Text.quoted k.name ++ " \x7d"

/-- A key as data. -/
def encode (k : ResultKey) : Datum := .record [("kind", .text k.kind), ("name", .text k.name)]

/-- A key from data. -/
def decode (d : Datum) : Option ResultKey :=
  match d.members [["kind"], ["name"]] with
  | some [kind, name] => do
    return ⟨← Datum.required Datum.text? kind, ← Datum.required Datum.text? name⟩
  | _ => none

end ResultKey

/-- The types of results. -/
class Keyed (R : Type) where
  /-- The key of a result. -/
  key : R → ResultKey

/-! ### Results -/

/-- Results by key. -/
structure Results (R : Type) where
  /-- The results, in the order of the keys under which they are stored. -/
  table : Table ResultKey R := ∅

namespace Results

variable {R : Type} [Keyed R]

instance : Inhabited (Results R) := ⟨{}⟩

/-- Stores a result under its key, in place of what was there. -/
def add (s : Results R) (r : R) : Results R := ⟨s.table.insert (Keyed.key r) r⟩

/-- Stores results in turn. -/
def addAll (s : Results R) (l : List R) : Results R := l.foldl add s

/-- The result under a key. -/
def get? (s : Results R) (k : ResultKey) : Option R := s.table.get? k

/-- Whether there is a result under a key. -/
def contains (s : Results R) (k : ResultKey) : Bool := s.table.contains k

/-- The keys under which there are results. -/
def keys (s : Results R) : List ResultKey := s.table.keys

/-- The results. -/
def list (s : Results R) : List R := s.table.values

/-- The number of results. -/
def size (s : Results R) : Nat := s.table.size

/-- The results whose own key has a kind. -/
def ofKind (s : Results R) (kind : String) : List R :=
  s.list.filter fun r => (Keyed.key r).kind == kind

/-- The results that pass for values of a type. -/
def ofType {T : Type} (s : Results R) (view : R → Option T) : List T := s.list.filterMap view

/-- Puts what a function makes of the result under a key in its place; where the function gives
nothing, the result goes away. -/
def update (s : Results R) (k : ResultKey) (f : Option R → Option R) : Results R :=
  match f (s.get? k) with
  | some r => ⟨s.table.insert k r⟩
  | none => ⟨s.table.erase k⟩

/-- The results for logs. -/
def summary (s : Results R) : String :=
  "CompilationResult \x7b keys: [" ++ ", ".intercalate (s.keys.map ResultKey.summary) ++ "] \x7d"

end Results

/-! ### Dependencies -/

/-- A dependency of one key on another. -/
structure Dependency where
  /-- The key that depends on the other. -/
  source : ResultKey
  /-- The key that the other depends on. -/
  target : ResultKey
deriving DecidableEq, Inhabited

namespace Dependency

/-- The texts by which dependencies are ordered. -/
def texts (d : Dependency) : List String := d.source.texts ++ d.target.texts

instance : Ord Dependency := ⟨compareOn texts⟩

instance : Std.TransOrd Dependency := inferInstanceAs (Std.TransCmp (compareOn texts))

theorem ext_texts {a b : Dependency} (h : a.texts = b.texts) : a = b := by
  obtain ⟨⟨_, _⟩, ⟨_, _⟩⟩ := a; obtain ⟨⟨_, _⟩, ⟨_, _⟩⟩ := b; simp_all [texts, ResultKey.texts]

instance : Std.LawfulEqOrd Dependency where
  eq_of_compare {a b} h :=
    have h : compare a.texts b.texts = .eq := h
    ext_texts (Std.LawfulEqOrd.eq_of_compare h)

/-- A dependency as data. -/
def encode (d : Dependency) : Datum :=
  .record [("source", d.source.encode), ("target", d.target.encode)]

/-- A dependency from data. -/
def decode (d : Datum) : Option Dependency :=
  match d.members [["source"], ["target"]] with
  | some [source, target] => do
    return ⟨← Datum.required ResultKey.decode source, ← Datum.required ResultKey.decode target⟩
  | _ => none

end Dependency

/-- A set of dependencies. -/
abbrev Dependencies := Table Dependency Unit

namespace Dependencies

/-- Adds a dependency, and says whether it is new. -/
def add (s : Dependencies) (d : Dependency) : Dependencies × Bool :=
  (s.insertIfNew d (), !s.contains d)

/-- Adds dependencies in turn, and says for each whether it is new. -/
def addAll (s : Dependencies) : List Dependency → Dependencies × List Bool
  | [] => (s, [])
  | d :: rest =>
    let (s, new) := add s d
    let (s, more) := addAll s rest
    (s, new :: more)

/-- Removes a dependency, and says whether it was there. -/
def remove (s : Dependencies) (d : Dependency) : Dependencies × Bool := (s.erase d, s.contains d)

/-- The keys that a key depends on. -/
def targetsOf (s : Dependencies) (k : ResultKey) : List ResultKey :=
  s.keys.filterMap fun d => if d.source = k then some d.target else none

/-- The keys that depend on a key. -/
def sourcesOf (s : Dependencies) (k : ResultKey) : List ResultKey :=
  s.keys.filterMap fun d => if d.target = k then some d.source else none

end Dependencies

/-- The stores that the stages of a compilation share. -/
structure Stores (R : Type) where
  /-- The results. -/
  results : Results R := {}
  /-- The dependencies between keys. -/
  dependencies : Dependencies := ∅

end Groundwork
