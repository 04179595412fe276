/-
Resources.

A resource is a part of a deployment.  Several holders may share one resource and see each other's
changes, so resources live in a store and are referred to by handles.

* `Form` — a type of resources, given by its zero value;
* `Handle`, `Reference` — how resources are referred to;
* `Resource` — a resource; `Resource.zero` — the zero value of a form;
* `Store` — all resources; `Store.allocate`, `Store.get`, `Store.modify` — its operations.
-/
import Groundwork.Ident

set_option autoImplicit false

namespace Groundwork

/-- The identity of a zero value after its provider. -/
structure ZeroParts where
  /-- What the zero value is. -/
  kind : String
  /-- Where its name is valid. -/
  scope : String := ""
  /-- What it is called, which is nothing for most zero values. -/
  name : String := ""
deriving DecidableEq, Inhabited

/-- A kind stands for a zero value without scope and name. -/
instance : Coe String ZeroParts := ⟨fun kind => { kind }⟩

/-- A type of resources. -/
structure Form where
  /-- The provider of its zero value. -/
  provider : String
  /-- The other parts of the identity of its zero value. -/
  zero : ZeroParts
  /-- Whether its resources declare what they refer to. -/
  declares : Bool := true
deriving DecidableEq, Inhabited

/-- The identity of the zero value of a form. -/
def Form.ident (f : Form) : Ident :=
  { provider := f.provider, kind := f.zero.kind, scope := f.zero.scope, name := f.zero.name }

/-- The type tag of a form, read from its zero value. -/
def Form.tag (f : Form) : TypeTag := f.ident.tag

/-- Refers to one resource of a store. -/
structure Handle where
  /-- The place of the resource in the store. -/
  number : Nat
deriving DecidableEq, Inhabited

/-- A reference from one resource to another. -/
inductive Reference where
  /-- To a resource at hand. -/
  | handle (handle : Handle)
  /-- To whatever resource has this identity. -/
  | ident (ident : Ident)
deriving DecidableEq, Inhabited

/-- A part of a deployment. -/
structure Resource where
  /-- What people call it. -/
  label : String := ""
  /-- Its type. -/
  form : Form := default
  /-- Its identity. -/
  ident : Ident := {}
  /-- The constructs whose expansion led to it. -/
  owners : IdentSet := ∅
  /-- What it refers to. -/
  references : List Reference := []
  /-- Notes that behaviours have left on it. -/
  tags : List String := []
deriving Inhabited

namespace Resource

/-- The label of resources that come out of a factory. -/
def zeroLabel : String := "new"

/-- The zero value of a form. -/
def zero (f : Form) : Resource := { label := zeroLabel, form := f, ident := f.ident }

/-- What the resource declares to depend on. -/
def declared (r : Resource) : List Reference := if r.form.declares then r.references else []

/-- The text under which a graph files the resource. -/
def key (r : Resource) : String := r.ident.text

end Resource

/-! ### Stores -/

/-- All resources. -/
structure Store where
  /-- The resources by their numbers. -/
  resources : Array Resource := #[]
deriving Inhabited

namespace Store

/-- The resource that a handle refers to. -/
def get (s : Store) (h : Handle) : Resource := (s.resources[h.number]?).getD {}

/-- Adds a resource. -/
def allocate (s : Store) (r : Resource) : Handle × Store :=
  (⟨s.resources.size⟩, ⟨s.resources.push r⟩)

/-- Adds resources in turn. -/
def allocateAll (s : Store) : List Resource → List Handle × Store
  | [] => ([], s)
  | r :: rs =>
    let (h, s) := s.allocate r
    let (hs, s) := s.allocateAll rs
    (h :: hs, s)

/-- Changes a resource in its place. -/
def modify (s : Store) (h : Handle) (f : Resource → Resource) : Store :=
  ⟨s.resources.modify h.number f⟩

/-- The identity of the resource that a handle refers to. -/
def ident (s : Store) (h : Handle) : Ident := (s.get h).ident

/-- The text of that identity. -/
def key (s : Store) (h : Handle) : String := (s.get h).key

/-- The identity that a reference leads to. -/
def referred (s : Store) : Reference → Ident
  | .handle h => s.ident h
  | .ident i => i

/-- Leaves a note on a resource. -/
def tag (s : Store) (h : Handle) (note : String) : Store :=
  s.modify h fun r => { r with tags := r.tags ++ [note] }

end Store

end Groundwork
