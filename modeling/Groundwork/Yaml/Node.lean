/-
Nodes of YAML text.

A document is one node: a scalar, a sequence or a mapping, or an alias of a node that an anchor
named before it.  Aliases are kept by number, so that a node may hold an alias of itself.

Every anchor gets a label, which is the number of different names used before it.  Of the anchors
with one label the last one counts, wherever the alias stands; they can be several where a name is
used again.

* `Node` — the nodes; `Document` — a node with all nodes that have anchors;
* `Parsing` — the tokens still to be read and the anchors met so far;
* `Stream.parse` — the documents of a text.
-/
import Groundwork.Yaml.Token

set_option autoImplicit false

namespace Groundwork.Yaml

/-- A node of a document. -/
inductive Node where
  /-- A scalar, and whether it is written without quotes on its own. -/
  | scalar (text : String) (plain : Bool)
  /-- A sequence. -/
  | sequence (items : List Node)
  /-- A mapping, its entries as often and in the order in which they are written. -/
  | mapping (entries : List (Node × Node))
  /-- The node with this number among those with anchors. -/
  | alias (number : Nat)
deriving Inhabited

/-- The scalar that stands where nothing is written. -/
def Node.empty : Node := .scalar "" true

/-- A document. -/
structure Document where
  /-- The node it consists of. -/
  root : Node
  /-- The nodes with anchors, by number. -/
  anchored : List (Nat × Node) := []
  /-- The labels of the anchors, by number, the last one first. -/
  labels : List (Nat × Nat) := []
deriving Inhabited

/-- The last anchor with the label of an anchor. -/
def Document.lastLabelled (d : Document) (n : Nat) : Nat :=
  ((d.labels.find? fun e => some e.2 = d.labels.lookup n).map (·.1)).getD n

/-- The node that an alias stands for, or the node itself. -/
def Document.resolve (d : Document) : Node → Node
  | .alias n => (d.anchored.lookup (d.lastLabelled n)).getD .empty
  | node => node

/-- The state of the parser. -/
structure Parsing where
  /-- The tokens still to be read. -/
  tokens : List Token
  /-- The number of the node that each anchor names now. -/
  names : List (String × Nat) := []
  /-- The number of nodes with anchors so far. -/
  count : Nat := 0
  /-- The complete nodes with anchors. -/
  anchored : List (Nat × Node) := []
  /-- The labels of the anchors, the last one first. -/
  labels : List (Nat × Nat) := []
  /-- The handles of tags that may be used. -/
  handles : List String := []

namespace Parsing

/-- A step of the parser; there is no result where the tokens make no document. -/
abbrev Step (α : Type) := StateT Parsing Option α

/-- Refuses the tokens. -/
def refuse {α : Type} : Step α := fun _ => none

/-- The next token. -/
def peek : Step (Option Token) := return (← get).tokens.head?

/-- Goes on to the token after the next. -/
def skip : Step Unit := modify fun s => { s with tokens := s.tokens.tail }

/-- Goes on to the token after the next, which must be a given one. -/
def expect (t : Token) : Step Unit := do
  if (← peek) = some t then skip else refuse

/-- Gives a number and a label to the node with this anchor. -/
def declare (name : String) : Step Nat := do
  let s ← get
  let label := (s.names.map (·.1)).eraseDups.length
  set { s with
    names := (name, s.count) :: s.names
    count := s.count + 1
    labels := (s.count, label) :: s.labels }
  return s.count

/-- What may stand before a node: its anchor and its tag, in either order. -/
structure Prelude where
  /-- The anchor. -/
  anchor : Option String := none
  /-- The handle of the tag. -/
  tag : Option String := none

/-- Reads an anchor, if one is next. -/
def readAnchor : Step (Option String) := do
  match (← peek) with
  | some (.anchor name) => skip; return some name
  | _ => return none

/-- Reads a tag, if one is next. -/
def readTag : Step (Option String) := do
  match (← peek) with
  | some (.tag handle) => skip; return some handle
  | _ => return none

/-- Reads the anchor and the tag of a node; the handle of the tag has to be known. -/
def readPrelude : Step Prelude := do
  let before ← readTag
  let anchor ← readAnchor
  let tag ← if before.isSome then pure before else readTag
  let known := ["", "!", "!!"] ++ (← get).handles
  if tag.all known.contains then return { anchor, tag } else refuse

/-- Whether the next token is one of the given ones. -/
def nextIn (l : List (Option Token)) : Step Bool := return l.contains (← peek)

mutual

/-- A node.  Block collections are read where `block` holds; where `indentless` holds, a sequence
may stand as far out as the mapping around it. -/
def node : Nat → Bool → Bool → Step Node
  | 0, _, _ => refuse
  | n + 1, block, indentless => do
    match (← peek) with
    | some (.alias name) =>
      skip
      match (← get).names.lookup name with
      | some k => return .alias k
      | none => refuse
    | _ =>
      let p ← readPrelude
      let number ← p.anchor.mapM declare
      let result ← match (← peek) with
        | some (.scalar text plain) => do
          skip
          pure (Node.scalar text (plain && p.tag.isNone))
        | some .flowSequence => do
          skip
          .sequence <$> flowItems n true
        | some .flowMapping => do
          skip
          .mapping <$> flowEntries n true
        | some .blockSequence =>
          if block then do
            skip
            .sequence <$> blockItems n
          else refuse
        | some .blockMapping =>
          if block then do
            skip
            .mapping <$> blockEntries n
          else refuse
        | some .blockEntry =>
          if indentless then .sequence <$> indentlessItems n
          else if p.anchor.isSome || p.tag.isSome then pure .empty
          else refuse
        | _ => if p.anchor.isSome || p.tag.isSome then pure .empty else refuse
      if let some k := number then
        modify fun s => { s with anchored := (k, result) :: s.anchored }
      return result

/-- A node, or nothing where one of the given tokens is next. -/
def nodeUnless : Nat → List (Option Token) → Bool → Bool → Step Node
  | 0, _, _, _ => refuse
  | n + 1, stops, block, indentless => do
    if (← nextIn stops) then return .empty else node n block indentless

/-- The entries of a block sequence, and its end. -/
def blockItems : Nat → Step (List Node)
  | 0 => refuse
  | n + 1 => do
    match (← peek) with
    | some .blockEntry =>
      skip
      let item ← nodeUnless n [some .blockEntry, some .blockEnd] true false
      return item :: (← blockItems n)
    | some .blockEnd => skip; return []
    | _ => refuse

/-- The entries of a sequence as far out as the mapping around it. -/
def indentlessItems : Nat → Step (List Node)
  | 0 => refuse
  | n + 1 => do
    match (← peek) with
    | some .blockEntry =>
      skip
      let item ← nodeUnless n [some .blockEntry, some .key, some .value, some .blockEnd] true false
      return item :: (← indentlessItems n)
    | _ => return []

/-- The entries of a block mapping, and its end. -/
def blockEntries : Nat → Step (List (Node × Node))
  | 0 => refuse
  | n + 1 => do
    let stops := [some .key, some .value, some .blockEnd]
    match (← peek) with
    | some .blockEnd => skip; return []
    | some .key =>
      skip
      let k ← nodeUnless n stops true true
      let v ← if (← peek) = some .value then do skip; nodeUnless n stops true true
        else pure .empty
      return (k, v) :: (← blockEntries n)
    | _ => refuse

/-- The items of a flow sequence, and its end.  An item may be a mapping of one entry. -/
def flowItems : Nat → Bool → Step (List Node)
  | 0, _ => refuse
  | n + 1, first => do
    if (← peek) = some .flowSequenceEnd then skip; return []
    if !first then expect .flowEntry
    match (← peek) with
    | some .flowSequenceEnd => skip; return []
    | some .key =>
      skip
      let stops := [some .value, some .flowEntry, some .flowSequenceEnd]
      -- where the key is left out, the token after it goes with it
      let k ← if (← nextIn stops) then do skip; pure .empty else node n false false
      let v ← if (← peek) = some .value then do
          skip
          nodeUnless n [some .flowEntry, some .flowSequenceEnd] false false
        else pure .empty
      return .mapping [(k, v)] :: (← flowItems n false)
    | _ =>
      let item ← node n false false
      return item :: (← flowItems n false)

/-- The entries of a flow mapping, and its end. -/
def flowEntries : Nat → Bool → Step (List (Node × Node))
  | 0, _ => refuse
  | n + 1, first => do
    if (← peek) = some .flowMappingEnd then skip; return []
    if !first then expect .flowEntry
    match (← peek) with
    | some .flowMappingEnd => skip; return []
    | some .key =>
      skip
      let k ← nodeUnless n [some .value, some .flowEntry, some .flowMappingEnd] false false
      let v ← if (← peek) = some .value then do
          skip
          nodeUnless n [some .flowEntry, some .flowMappingEnd] false false
        else pure .empty
      return (k, v) :: (← flowEntries n false)
    | _ =>
      let k ← node n false false
      return (k, .empty) :: (← flowEntries n false)

end

/-! ### Documents -/

/-- Reads the directives before a document: at most one version, which has to be 1.1 or 1.2, and
at most one tag directive for each handle. -/
def directives : Nat → Bool → Step Unit
  | 0, _ => refuse
  | n + 1, versioned => do
    match (← peek) with
    | some (.version major minor) =>
      if versioned || major != 1 || (minor != 1 && minor != 2) then refuse
      skip
      directives n true
    | some (.tagDirective handle) =>
      if (← get).handles.contains handle then refuse
      skip
      modify fun s => { s with handles := handle :: s.handles }
      directives n versioned
    | _ => return

/-- The root of a document after its mark. -/
def content (n : Nat) : Step Node := do
  match (← peek) with
  | none | some .documentStart | some .documentEnd | some (.version ..) | some (.tagDirective _) =>
    return .empty
  | _ => node n true false

/-- The documents of the remaining tokens.  Only the first of them may do without a mark. -/
def documents (fuel : Nat) : Nat → Bool → Step (List Document)
  | 0, _ => refuse
  | n + 1, first => do
    if !first then
      modify fun s => { s with tokens := s.tokens.dropWhile (· == .documentEnd) }
    modify fun s => { s with names := [], count := 0, anchored := [], labels := [], handles := [] }
    match (← peek) with
    | none => return []
    | some t =>
      let marked := match t with
        | .version .. | .tagDirective _ | .documentStart => true
        | _ => false
      let root ← if !first || marked then do
          directives fuel false
          expect .documentStart
          content fuel
        else node fuel true false
      let s ← get
      let doc : Document := { root, anchored := s.anchored, labels := s.labels }
      if (← peek) = some .documentEnd then skip
      return doc :: (← documents fuel n false)

end Parsing

/-- The documents of a text.  Each step of the parser reads a token or enters a node. -/
def Stream.parse (s : String) : Option (List Document) := do
  let tokens ← Token.scan s
  let n := 4 * tokens.length + 4
  let (docs, _) ← (Parsing.documents n n true).run { tokens }
  return docs

end Groundwork.Yaml
