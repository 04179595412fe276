/-
Identities of constructs and resources.

An identity has a provider, a kind, an optional scope that tells resources of one name apart, and
a name.  Its text joins them by colons; a graph files a vertex under the text of its identity.

* `Ident` — the identity; `Ident.text` — its text; `Ident.parse` — reads a text;
* `Ident.tag` — the type tag of an identity;
* `Ident.admits`, `Ident.select` — an identity as a filter, empty parts matching everything;
* `IdentSet` — a set of identities in the order of their parts.
-/
import Groundwork.Datum
import Groundwork.Fault
import Groundwork.Table

set_option autoImplicit false

namespace Groundwork

/-- The identity of a construct or resource. -/
structure Ident where
  /-- Who provides it. -/
  provider : String := ""
  /-- What it is. -/
  kind : String := ""
  /-- Where its name is valid, empty if the name alone tells it apart. -/
  scope : String := ""
  /-- What it is called. -/
  name : String := ""
deriving DecidableEq, Inhabited

namespace Ident

/-- The provider of constructs, which belong to no provider of resources. -/
def abstractProvider : String := "klotho"

/-- Whether all parts are empty. -/
def isZero (i : Ident) : Bool :=
  i.provider.isEmpty && i.kind.isEmpty && i.scope.isEmpty && i.name.isEmpty

/-- Whether the identity is that of a construct. -/
def isAbstract (i : Ident) : Bool := i.provider == abstractProvider

/-- The type tag of the identity. -/
def tag (i : Ident) : TypeTag := .ofParts i.provider i.kind

/-! ### Order -/

/-- The parts in the order in which they are compared. -/
def parts (i : Ident) : List String := [i.provider, i.kind, i.scope, i.name]

instance : Ord Ident := ⟨compareOn parts⟩

instance : Std.TransOrd Ident := inferInstanceAs (Std.TransCmp (compareOn parts))

theorem ext_parts {a b : Ident} (h : a.parts = b.parts) : a = b := by
  cases a; cases b; simp_all [parts]

instance : Std.LawfulEqOrd Ident where
  eq_of_compare {a b} h :=
    have h : compare a.parts b.parts = .eq := h
    ext_parts (Std.LawfulEqOrd.eq_of_compare h)

/-! ### Text -/

/-- The text of an identity.  A scope is written if there is one, or if the name holds a colon and
would otherwise be read as a scope and a name. -/
def text (i : Ident) : String :=
  if i.isZero then ""
  else
    i.provider ++ ":" ++ i.kind ++
      (if !i.scope.isEmpty || i.name.contains ':' then ":" ++ i.scope else "") ++
      (if !i.name.isEmpty then ":" ++ i.name else "")

/-- The characters of providers and kinds. -/
def isWordChar (c : Char) : Bool := c.isAlphanum || c == '_'

/-- The characters of scopes. -/
def isScopeChar (c : Char) : Bool :=
  isWordChar c || c == '.' || c == '/' || c == '-' || c == '[' || c == ']'

/-- The characters of names. -/
def isNameChar (c : Char) : Bool := isScopeChar c || c == ':'

/-- Cuts a text at its first colons, at most `n` of them. -/
def cut : Nat → List Char → List (List Char)
  | 0, cs => [cs]
  | n + 1, cs =>
    match cs.dropWhile (· != ':') with
    | [] => [cs]
    | _ :: rest => cs.takeWhile (· != ':') :: cut n rest

/-- What is wrong with the parts of an identity, in the order of the parts. -/
def problems (i : Ident) : List String :=
  (if i.provider.isEmpty || !i.provider.toList.all isWordChar then
    ["invalid provider '" ++ i.provider ++ "'"] else []) ++
  (if !i.kind.toList.all isWordChar then ["invalid type '" ++ i.kind ++ "'"] else []) ++
  (if !i.scope.toList.all isScopeChar then ["invalid namespace '" ++ i.scope ++ "'"] else []) ++
  (if !i.name.toList.all isNameChar then ["invalid name '" ++ i.name ++ "'"] else [])

/-- The identity itself if its parts are well formed, else all that is wrong with them. -/
def validate (i : Ident) (text : String) : Except Fault Ident :=
  match i.problems with
  | [] => .ok i
  | l => .error (.invalidId text ("; ".intercalate l))

/-- Reads a text as an identity: `provider:kind`, `provider:kind:name` or
`provider:kind:scope:name`, or nothing at all for the identity without parts. -/
def parse (text : String) : Except Fault Ident :=
  match (cut 3 text.toList).map String.ofList with
  | [""] => .ok {}
  | [provider, kind] => validate { provider, kind } text
  | [provider, kind, name] => validate { provider, kind, name } text
  | [provider, kind, scope, name] => validate { provider, kind, scope, name } text
  | _ => .error (.invalidId text "must have trailing ':' for provider-only ID")

/-- An identity from its text. -/
def decode (d : Datum) : Option Ident := d.text?.bind fun s => (parse s).toOption

/-! ### Selection -/

/-- Whether every part of the selector that is not empty is that of the identity. -/
def admits (selector i : Ident) : Bool :=
  (selector.provider.isEmpty || selector.provider == i.provider) &&
  (selector.kind.isEmpty || selector.kind == i.kind) &&
  (selector.scope.isEmpty || selector.scope == i.scope) &&
  (selector.name.isEmpty || selector.name == i.name)

/-- The identities that a selector matches. -/
def select (selector : Ident) (l : List Ident) : List Ident := l.filter selector.admits

end Ident

/-! ### Sets of identities -/

/-- A set of identities, listed in their order. -/
abbrev IdentSet := Table Ident Unit

namespace IdentSet

/-- Adds an identity, and says whether it is new. -/
def add (s : IdentSet) (i : Ident) : IdentSet × Bool := (s.insertIfNew i (), !s.contains i)

/-- Adds several identities. -/
def addAll (s : IdentSet) (l : List Ident) : IdentSet := l.foldl (fun s i => s.insertIfNew i ()) s

/-- The set of the given identities. -/
def ofList (l : List Ident) : IdentSet := addAll ∅ l

/-- A set as the list of the texts of its identities. -/
def encode (s : IdentSet) : Datum := .list (s.keys.map fun i => .text i.text)

/-- A set from the list of the texts of its identities. -/
def decode (d : Datum) : Option IdentSet := (d.listOf Ident.decode).map ofList

end IdentSet

end Groundwork
