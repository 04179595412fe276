/-
Reading TOML text.

A text is a sequence of sections.  Each section has a header, which names a table or the next
table of a list, and entries, whose keys may lead into tables of their own.

* `Toml.Item`, `Toml.TableKind` — what is under a key, and how a table came about;
* `Toml.insertEntry`, `Toml.openTable` — adding entries and sections, which never redefine
  anything;
* `Toml.read` — the record of a text, if the text is TOML.
-/
import Groundwork.Toml.Scalar

set_option autoImplicit false

namespace Groundwork.Toml

/-! ### Tables -/

/-- How a table came about. -/
inductive TableKind where
  /-- By a header of its own. -/
  | headed
  /-- By a header of a table in it. -/
  | implied
  /-- By a key that leads through it. -/
  | dotted
deriving DecidableEq, Inhabited

/-- What is under a key. -/
inductive Item where
  /-- A value that nothing can be added to. -/
  | value (value : Datum)
  /-- A table. -/
  | table (kind : TableKind) (entries : List (String × Item))
  /-- A list of tables with headers. -/
  | tables (list : List (List (String × Item)))
deriving Inhabited

/-- The entries of a table. -/
abbrev Entries := List (String × Item)

/-- Puts an item under a key, in the place of what was there or at the end. -/
def assign (k : String) (i : Item) : Entries → Entries
  | [] => [(k, i)]
  | (k', i') :: rest => if k = k' then (k, i) :: rest else (k', i') :: assign k i rest

/-- Applies a change to the last element of a list. -/
def changeLast {α : Type} (f : α → Option α) : List α → Option (List α)
  | [] => none
  | [a] => (f a).map ([·])
  | a :: rest => (changeLast f rest).map (a :: ·)

/-- Adds a value under a key at the end of a path of keys.  `kind` is the kind of the table the
path starts from and `fresh` says that nothing has led into it. -/
def insertEntry (key : String) (v : Datum) : List String → TableKind → Bool → Entries →
    Option Entries
  | [], kind, fresh, es =>
    if !fresh && kind ≠ .dotted then none
    else if (es.lookup key).isSome then none
    else some (es ++ [(key, .value v)])
  | k :: path, _, _, es =>
    match es.lookup k with
    | none => do
      let inner ← insertEntry key v path .dotted false []
      return es ++ [(k, .table .dotted inner)]
    | some (.value _) => none
    | some (.table kind inner) => do
      if kind = .headed then none
      let inner ← insertEntry key v path kind false inner
      return assign k (.table kind inner) es
    | some (.tables l) => do
      let l ← changeLast (insertEntry key v path .headed false) l
      return assign k (.tables l) es

/-- Changes the table at the end of a path of keys; missing tables on the way are implied. -/
def descend (f : Entries → Option Entries) : List String → Entries → Option Entries
  | [], es => f es
  | k :: path, es =>
    match es.lookup k with
    | none => do
      let inner ← descend f path []
      return es ++ [(k, .table .implied inner)]
    | some (.value _) => none
    | some (.table kind inner) => do
      let inner ← descend f path inner
      return assign k (.table kind inner) es
    | some (.tables l) => do
      let l ← changeLast (descend f path) l
      return assign k (.tables l) es

/-- The entries that a section starts with: those of a table that is only implied so far. -/
def openTable (key : String) (es : Entries) : Option Entries :=
  match es.lookup key with
  | none => some []
  | some (.table .implied inner) => some inner
  | some _ => none

/-- An entry as it is read: the path of its key, the last key and the value. -/
abbrev Entry := List String × String × Datum

/-- Adds entries in turn. -/
def insertEntries (es : Entries) (l : List Entry) : Option Entries :=
  l.foldlM (fun es e => insertEntry e.2.1 e.2.2 e.1 .headed true es) es

/-- The header of a section. -/
inductive Header where
  /-- The start of the text. -/
  | top
  /-- A table. -/
  | table (path : List String) (key : String)
  /-- The next table of a list. -/
  | next (path : List String) (key : String)

/-- Adds a section. -/
def addSection (root : Entries) (h : Header) (l : List Entry) : Option Entries :=
  match h with
  | .top => insertEntries root l
  | .table path key =>
    descend (fun es => do
      let inner ← insertEntries (← openTable key es) l
      return assign key (.table .headed inner) es) path root
  | .next path key =>
    descend (fun es => do
      let inner ← insertEntries [] l
      match es.lookup key with
      | none => return es ++ [(key, .tables [inner])]
      | some (.tables list) => return assign key (.tables (list ++ [inner])) es
      | some _ => none) path root

mutual

/-- An item as data. -/
def Item.datum : Item → Datum
  | .value v => v
  | .table _ es => .record (entriesData es)
  | .tables l => .list (tablesData l)

/-- Entries as data. -/
def entriesData : List (String × Item) → List (String × Datum)
  | [] => []
  | (k, i) :: rest => (k, i.datum) :: entriesData rest

/-- Tables as data. -/
def tablesData : List (List (String × Item)) → List Datum
  | [] => []
  | es :: rest => .record (entriesData es) :: tablesData rest

end

/-! ### Keys and values -/

/-- The text after blanks. -/
def skipBlanks (cs : List Char) : List Char := cs.dropWhile isBlank

/-- The text after a comment, if one is next. -/
def skipComment : List Char → List Char
  | '#' :: rest => rest.dropWhile isPlain
  | cs => cs

/-- The text after the end of the line, which may have blanks and a comment before it. -/
def endLine? (cs : List Char) : Option (List Char) :=
  match skipComment (skipBlanks cs) with
  | [] => some []
  | rest => lineBreak? rest

/-- The text after blanks, comments and breaks. -/
def skipLines : Nat → List Char → List Char
  | 0, cs => cs
  | n + 1, cs =>
    let cs := skipComment (skipBlanks cs)
    match lineBreak? cs with
    | some rest => skipLines n rest
    | none => cs

/-- A key between dots, and the rest. -/
def simpleKey (cs : List Char) : Option (String × List Char) :=
  match cs.takeWhile isKeyChar with
  | [] => quoted? false cs
  | k => some (String.ofList k, cs.dropWhile isKeyChar)

/-- The keys of a path, parted by dots, and the rest. -/
def keyPath : Nat → List Char → Option (List String × List Char)
  | 0, _ => none
  | n + 1, cs => do
    let (k, rest) ← simpleKey (skipBlanks cs)
    match skipBlanks rest with
    | '.' :: rest => do
      let (ks, rest) ← keyPath n rest
      return (k :: ks, rest)
    | rest => return ([k], rest)

/-- The most keys that a path may have, and the most collections that may hold one another. -/
def depthLimit : Nat := 80

/-- A path of keys: what leads to the last one, and the last one. -/
def key (cs : List Char) : Option (List String × String × List Char) := do
  let (ks, rest) ← keyPath (depthLimit - 1) cs
  return (ks.dropLast, ← ks.getLast?, rest)

mutual

/-- A value at the start of the text, and the rest; `depth` collections may be around it. -/
def value : Nat → Nat → List Char → Option (Datum × List Char)
  | 0, _, _ => none
  | n + 1, depth, cs =>
    match cs with
    | '[' :: rest => do
      if depth ≤ 1 then none
      let (l, rest) ← items n (depth - 1) (skipLines rest.length rest)
      return (.list l, rest)
    | '\x7b' :: rest => do
      if depth ≤ 1 then none
      match skipBlanks rest with
      | '\x7d' :: rest => return (.record [], rest)
      | rest =>
        let (l, rest) ← fields n (depth - 1) rest
        return (.record (entriesData (← insertEntries [] l)), rest)
    | c :: _ =>
      if c = '"' || c = '\'' then (quoted? true cs).map fun (s, rest) => (.text s, rest)
      else word cs
    | [] => none

/-- The values of a list, up to its closing bracket. -/
def items : Nat → Nat → List Char → Option (List Datum × List Char)
  | 0, _, _ => none
  | n + 1, depth, cs =>
    match cs with
    | ']' :: rest => some ([], rest)
    | cs => do
      let (d, rest) ← value n depth cs
      match skipLines rest.length rest with
      | ',' :: rest =>
        let (l, rest) ← items n depth (skipLines rest.length rest)
        return (d :: l, rest)
      | ']' :: rest => return ([d], rest)
      | _ => none

/-- The entries of a table on one line, of which there is at least one, up to its closing brace. -/
def fields : Nat → Nat → List Char → Option (List Entry × List Char)
  | 0, _, _ => none
  | n + 1, depth, cs => do
    let (path, k, rest) ← key cs
    match rest with
    | '=' :: rest => do
      let (d, rest) ← value n depth (skipBlanks rest)
      match skipBlanks rest with
      | ',' :: rest =>
        let (l, rest) ← fields n depth rest
        return ((path, k, d) :: l, rest)
      | '\x7d' :: rest => return ([(path, k, d)], rest)
      | _ => none
    | _ => none

end

/-! ### Sections -/

/-- The header of a section, and the text after its line. -/
def header (cs : List Char) : Option (Header × List Char) :=
  match cs with
  | '[' :: '[' :: rest => do
    let (path, k, rest) ← key rest
    match rest with
    | ']' :: ']' :: rest => return (.next path k, ← endLine? rest)
    | _ => none
  | '[' :: rest => do
    let (path, k, rest) ← key rest
    match rest with
    | ']' :: rest => return (.table path k, ← endLine? rest)
    | _ => none
  | _ => none

/-- An entry, and the text after its line. -/
def entry (cs : List Char) : Option (Entry × List Char) := do
  let (path, k, rest) ← key cs
  match rest with
  | '=' :: rest => do
    let (d, rest) ← value (2 * rest.length + 2) depthLimit (skipBlanks rest)
    return ((path, k, d), ← endLine? rest)
  | _ => none

/-- The root table of a text whose last header was `h`, with the entries `l` read since then. -/
def sections : Nat → Entries → Header → List Entry → List Char → Option Entries
  | 0, _, _, _, _ => none
  | n + 1, root, h, l, cs =>
    match skipLines cs.length cs with
    | [] => addSection root h l
    | '[' :: rest => do
      let root ← addSection root h l
      let (h, rest) ← header ('[' :: rest)
      sections n root h [] rest
    | cs => do
      let (e, rest) ← entry cs
      sections n root h (l ++ [e]) rest

/-- The record of a text, if the text is TOML.  Every step reads at least one line. -/
def read (s : String) : Option Datum :=
  let cs := match s.toList with
    | '\ufeff' :: rest => rest
    | cs => cs
  (sections (cs.length + 1) [] .top [] cs).map fun es => .record (entriesData es)

end Groundwork.Toml
