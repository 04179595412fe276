/-
Knowledge bases.

A knowledge base says which types of resources can be linked directly, and how.  It also knows how
to make a resource of a type, so that a chain of links can go through types of which there is no
resource yet.

* `Link` — an ordered pair of types; `LinkEntry` — what is known about it;
* `Expansion`, `Configuration` — the behaviours of an entry;
* `KnowledgeBase` — the entries and the factories; `KnowledgeBase.add`,
  `KnowledgeBase.addForms`, `KnowledgeBase.registerFactory`, `KnowledgeBase.merge` — the changes;
* `KnowledgeBase.form` — the form that a type is made from;
* `KnowledgeBase.paths` — all chains of types between two types, in the order of their types;
* `KnowledgeBase.drawing`, `KnowledgeBase.summary` — the entries as text.
-/
import Groundwork.Resource.Graph
import Groundwork.Text.Quoted

set_option autoImplicit false

namespace Groundwork

/-- An ordered pair of types. -/
structure Link where
  /-- The type at the start of the link. -/
  source : TypeTag
  /-- The type at the end of the link. -/
  target : TypeTag
deriving DecidableEq, Inhabited

namespace Link

/-- The texts by which links are ordered. -/
def texts (l : Link) : List String := [l.source.text, l.target.text]

instance : Ord Link := ⟨compareOn texts⟩

instance : Std.TransOrd Link := inferInstanceAs (Std.TransCmp (compareOn texts))

theorem ext_texts {a b : Link} (h : a.texts = b.texts) : a = b := by
  obtain ⟨⟨_⟩, ⟨_⟩⟩ := a; obtain ⟨⟨_⟩, ⟨_⟩⟩ := b; simp_all [texts]

instance : Std.LawfulEqOrd Link where
  eq_of_compare {a b} h :=
    have h : compare a.texts b.texts = .eq := h
    ext_texts (Std.LawfulEqOrd.eq_of_compare h)

end Link

/-- Realises a link between two resources in the graph. -/
abbrev Expansion := Handle → Handle → EdgeData → Site → Site × Except Cause Unit

/-- Adjusts two linked resources, without a look at the graph. -/
abbrev Configuration := Handle → Handle → EdgeData → Store → Store × Except Cause Unit

/-- What is known about a link. -/
structure LinkEntry where
  /-- How the link is realised, if anything has to be done for it. -/
  expand : Option Expansion := none
  /-- How linked resources are adjusted, if anything has to be done for it. -/
  configure : Option Configuration := none
  /-- The types at the end of a chain for which the link may be used; all if there are none. -/
  destinations : List TypeTag := []
deriving Inhabited

namespace LinkEntry

/-- Whether a chain that ends in a type may use the link.  Only links that have to be realised are
restricted. -/
def admits (e : LinkEntry) (destination : TypeTag) : Bool :=
  e.expand.isNone || e.destinations.isEmpty || e.destinations.contains destination

end LinkEntry

/-- What is known about links between types. -/
structure KnowledgeBase where
  /-- The entries by their links. -/
  entries : Table Link LinkEntry := ∅
  /-- The forms from which resources of a type are made. -/
  factories : Table TypeTag Form := ∅
deriving Inhabited

namespace KnowledgeBase

/-! ### Changes -/

/-- Adds an entry for a link that has none. -/
def add (kb : KnowledgeBase) (l : Link) (e : LinkEntry) : KnowledgeBase × Except Fault Unit :=
  if kb.entries.contains l then (kb, .error (.duplicateEntry l.source l.target))
  else ({ kb with entries := kb.entries.insert l e }, .ok ())

/-- Sets the form from which resources of a type are made. -/
def registerFactory (kb : KnowledgeBase) (t : TypeTag) (f : Form) : KnowledgeBase :=
  { kb with factories := kb.factories.insert t f }

/-- Adds an entry for the link between the types of two forms, which can be made from then on,
also where the entry is refused. -/
def addForms (kb : KnowledgeBase) (source target : Form) (e : LinkEntry) :
    KnowledgeBase × Except Fault Unit :=
  ((kb.registerFactory source.tag source).registerFactory target.tag target).add
    ⟨source.tag, target.tag⟩ e

/-- Adds the entries and factories of another knowledge base where there are none.  Every entry
that is refused is reported. -/
def merge (kb other : KnowledgeBase) : KnowledgeBase × Except Fault Unit :=
  let (kb, faults) := other.entries.toList.foldl (fun (kb, faults) e =>
    let (kb, result) := kb.add e.1 e.2
    (kb, faults.pushResult result)) (kb, ({} : Faults))
  let factories := other.factories.toList.foldl (fun t e => t.insertIfNew e.1 e.2) kb.factories
  ({ kb with factories }, faults.result)

/-! ### Lookup -/

/-- The entry for a link. -/
def entry? (kb : KnowledgeBase) (l : Link) : Option LinkEntry := kb.entries.get? l

/-- Whether there is an entry for a link. -/
def hasEntry (kb : KnowledgeBase) (l : Link) : Bool := kb.entries.contains l

/-- The links, in order. -/
def links (kb : KnowledgeBase) : List Link := kb.entries.keys

/-- The types that links from a type lead to, with their entries. -/
def leaving (kb : KnowledgeBase) (t : TypeTag) : List (TypeTag × LinkEntry) :=
  kb.entries.toList.filterMap fun e => if e.1.source = t then some (e.1.target, e.2) else none

/-- The types that links to a type come from, with their entries. -/
def entering (kb : KnowledgeBase) (t : TypeTag) : List (TypeTag × LinkEntry) :=
  kb.entries.toList.filterMap fun e => if e.1.target = t then some (e.1.source, e.2) else none

/-- The form from which resources of a type are made. -/
def form (kb : KnowledgeBase) (t : TypeTag) : Except Fault Form :=
  match kb.factories.get? t with
  | some f => .ok f
  | none => .error (.missingFactory t)

/-- Makes a resource of a type. -/
def create (kb : KnowledgeBase) (t : TypeTag) : Except Fault Resource := (kb.form t).map .zero

/-! ### Chains of types

A chain leads from one type to another along links and enters no type twice. -/

/-- The chains to `destination` that go on from a chain to `current`, which is given backwards.  A
chain enters at most `n` more types. -/
def pathsFrom (kb : KnowledgeBase) (destination : TypeTag) :
    Nat → TypeTag → List TypeTag → List (List TypeTag)
  | n, current, behind =>
    if current = destination then [(current :: behind).reverse]
    else
      match n with
      | 0 => []
      | n + 1 =>
        (kb.leaving current).flatMap fun (next, entry) =>
          if (current :: behind).contains next || !entry.admits destination then []
          else kb.pathsFrom destination n next (current :: behind)

/-- All chains from one type to another.  Every step of a chain enters the end of another link, so
there are no more steps than links. -/
def paths (kb : KnowledgeBase) (source destination : TypeTag) : List (List TypeTag) :=
  kb.pathsFrom destination kb.entries.size source []

/-! ### Texts -/

/-- The line of an entry in a drawing. -/
def drawingLine (l : Link) (e : LinkEntry) : String :=
  let behaviours := (if e.expand.isSome then ["expand"] else []) ++
    (if e.configure.isSome then ["configure"] else [])
  "  \"" ++ l.source.text ++ "\" -> \"" ++ l.target.text ++ "\" [label=\"" ++
    ",".intercalate behaviours ++ "\"];\n"

/-- The entries as DOT text. -/
def drawing (kb : KnowledgeBase) : String :=
  "digraph KnowledgeBase \x7b\n  rankdir=LR;\n  node [shape=box];\n" ++
    String.join (kb.entries.toList.map fun e => drawingLine e.1 e.2) ++ "\x7d\n"

/-- A type in a summary. -/
def tagSummary (t : TypeTag) : String := "ResourceType(" ++ Text.quoted t.text ++ ")"

/-- An entry in a summary. -/
def entrySummary (l : Link) (e : LinkEntry) : String :=
  "(" ++ tagSummary l.source ++ ", " ++ tagSummary l.target ++ "): EdgeDetails \x7b expand: " ++
    toString e.expand.isSome ++ ", configure: " ++ toString e.configure.isSome ++
    ", valid_destinations: [" ++ ", ".intercalate (e.destinations.map tagSummary) ++ "] \x7d"

/-- A summary of the entries for logs. -/
def summary (kb : KnowledgeBase) : String :=
  "\x7b" ++ ", ".intercalate (kb.entries.toList.map fun e => entrySummary e.1 e.2) ++ "\x7d"

end KnowledgeBase

end Groundwork
