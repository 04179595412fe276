/-
Tokens of YAML text.

The indentation of block collections becomes tokens of its own: a collection starts where a line
is indented further than the one before, and ends where a line is indented less.  A key is known
as such only at the colon after it, so that the tokens which open it are put in afterwards.

* `Token` — the tokens;
* `Lexer` — the state of the lexer; `Lexer.step` — reads one more token;
* `Token.scan` — all tokens of a text.
-/
import Groundwork.Yaml.Scalar

set_option autoImplicit false

namespace Groundwork.Yaml

/-- A token. -/
inductive Token where
  /-- The `%YAML` directive. -/
  | version (major minor : Nat)
  /-- The `%TAG` directive for a handle. -/
  | tagDirective (handle : String)
  /-- The mark `---`. -/
  | documentStart
  /-- The mark `...`. -/
  | documentEnd
  /-- A block sequence starts. -/
  | blockSequence
  /-- A block mapping starts. -/
  | blockMapping
  /-- A block collection ends. -/
  | blockEnd
  /-- A flow sequence starts. -/
  | flowSequence
  /-- A flow sequence ends. -/
  | flowSequenceEnd
  /-- A flow mapping starts. -/
  | flowMapping
  /-- A flow mapping ends. -/
  | flowMappingEnd
  /-- The indicator of an entry of a block sequence. -/
  | blockEntry
  /-- The separator in flow collections. -/
  | flowEntry
  /-- A key follows. -/
  | key
  /-- A value follows. -/
  | value
  /-- A node given by its anchor. -/
  | alias (name : String)
  /-- An anchor for the next node. -/
  | anchor (name : String)
  /-- A tag for the next node, by its handle; empty for a tag without one. -/
  | tag (handle : String)
  /-- A scalar. -/
  | scalar (text : String) (plain : Bool)
deriving DecidableEq, Inhabited

/-- The place where a key may have started. -/
structure KeyStart where
  /-- Whether it can still be a key. -/
  possible : Bool := false
  /-- Whether only a key can stand there. -/
  required : Bool := false
  /-- The number of tokens before it. -/
  token : Nat := 0
  /-- The number of characters before it. -/
  index : Nat := 0
  /-- The line on which it starts. -/
  line : Nat := 0
  /-- The column in which it starts. -/
  column : Nat := 0
deriving Inhabited

/-- The state of the lexer. -/
structure Lexer where
  /-- Where it stands. -/
  cursor : Cursor
  /-- The tokens so far. -/
  tokens : Array Token := #[]
  /-- The indentation of the innermost block collection. -/
  indent : Int := -1
  /-- The indentations of the block collections around it. -/
  indents : List Int := []
  /-- The number of open flow collections. -/
  flow : Nat := 0
  /-- Whether a key may start here. -/
  keyAllowed : Bool := true
  /-- The last possible key of each open flow collection, and of the block around them. -/
  keys : List KeyStart := [{}]
  /-- Whether the text has been read to its end. -/
  done : Bool := false
deriving Inhabited

namespace Lexer

/-- Adds a token. -/
def push (s : Lexer) (t : Token) : Lexer := { s with tokens := s.tokens.push t }

/-- Moves on by some characters of the line. -/
def advance (s : Lexer) (n : Nat) : Lexer := { s with cursor := s.cursor.advance n }

/-- Says whether a key may start next. -/
def allowKey (s : Lexer) (b : Bool) : Lexer := { s with keyAllowed := b }

/-! ### Possible keys -/

/-- Gives up the possible key of the innermost collection; it must not be required. -/
def dropKey (s : Lexer) : Option Lexer :=
  match s.keys with
  | k :: ks => if k.possible && k.required then none else some { s with keys := {} :: ks }
  | [] => some s

/-- Notes that a key may start here, where one is allowed. -/
def saveKey (s : Lexer) : Option Lexer :=
  if s.keyAllowed then do
    let s ← s.dropKey
    let c := s.cursor
    let k : KeyStart :=
      { possible := true
        required := s.flow = 0 && s.indent = c.column
        token := s.tokens.size
        index := c.index, line := c.line, column := c.column }
    return { s with keys := k :: s.keys.tail }
  else some s

/-- Gives up the keys that have become too long or would go on over a line. -/
def dropStaleKeys (s : Lexer) : Option Lexer := do
  let c := s.cursor
  let keys ← s.keys.mapM fun k =>
    if k.possible && (k.line < c.line || k.index + 1024 < c.index) then
      if k.required then none else some { k with possible := false }
    else some k
  return { s with keys }

/-! ### Indentation -/

/-- Starts a block collection if the column is further in than the one around it.  The token goes
to the given place. -/
def indentTo (s : Lexer) (column : Nat) (t : Token) (place : Nat) : Lexer :=
  if s.flow = 0 && s.indent < column then
    { s with
      indents := s.indent :: s.indents
      indent := column
      tokens := s.tokens.insertIdxIfInBounds place t }
  else s

/-- Ends the block collections that are further in than the column. -/
def dedentFrom : List Int → Int → Int → Array Token → List Int × Int × Array Token
  | [], _, indent, tokens => ([], indent, tokens)
  | outer :: rest, column, indent, tokens =>
    if indent > column then dedentFrom rest column outer (tokens.push .blockEnd)
    else (outer :: rest, indent, tokens)

/-- Ends the block collections that are further in than the column. -/
def dedentTo (s : Lexer) (column : Int) : Lexer :=
  if s.flow > 0 then s
  else
    let (indents, indent, tokens) := dedentFrom s.indents column s.indent s.tokens
    { s with indents, indent, tokens }

/-! ### Between tokens -/

/-- Moves on to the next token, over blanks, comments and breaks. -/
def toNextToken : Nat → Lexer → Lexer
  | 0, s => s
  | n + 1, s =>
    let c := s.cursor
    let c := if c.column = 0 && c.isAt '\ufeff' then c.advance 1 else c
    let tabs := s.flow > 0 || !s.keyAllowed
    let c := c.skipWhile fun ch => ch = ' ' || (tabs && ch = '\t')
    let c := if c.isAt '#' then c.skipWhile (!isBreak ·) else c
    if c.peek.any isBreak then
      toNextToken n
        { s with cursor := c.takeBreak.2, keyAllowed := s.keyAllowed || s.flow = 0 }
    else { s with cursor := c }

/-! ### Directives, anchors and tags -/

/-- A number in a directive. -/
def number? (c : Cursor) : Option (Nat × Cursor) :=
  let ds := c.rest.takeWhile Char.isDigit
  if ds.isEmpty || ds.length > 9 then none
  else some (Json.digitsValue ds, c.skipWhile Char.isDigit)

/-- The handle of a tag.  In a directive it has to end in an exclamation mark. -/
def tagHandle? (directive : Bool) (c : Cursor) : Option (List Char × Cursor) :=
  if !c.isAt '!' then none
  else
    let word := (c.advance 1).rest.takeWhile isWord
    let c := c.advance (1 + word.length)
    if c.isAt '!' then some ('!' :: word ++ ['!'], c.advance 1)
    else if directive && !word.isEmpty then none
    else some ('!' :: word, c)

/-- The characters of the address of a tag. -/
def isUriChar (verbatim : Bool) (c : Char) : Bool :=
  isWord c || ";/?:@&=+$.!~*'()%".contains c || (verbatim && (c = ',' || c = '[' || c = ']'))

/-- The number of bytes that a leading byte announces. -/
def utf8Width (b : Nat) : Nat :=
  if b < 0x80 then 1
  else if 0xC0 ≤ b && b < 0xE0 then 2
  else if 0xE0 ≤ b && b < 0xF0 then 3
  else if 0xF0 ≤ b && b < 0xF8 then 4
  else 0

/-- Checks the escapes in an address: two digits each, together the bytes of characters, of which
`pending` are still to come. -/
def checkUri : Nat → List Char → Bool
  | pending, '%' :: a :: b :: rest =>
    match Json.hexNumber? [a, b] with
    | none => false
    | some n =>
      if pending > 0 then 0x80 ≤ n && n < 0xC0 && checkUri (pending - 1) rest
      else
        match utf8Width n with
        | 0 => false
        | k + 1 => checkUri k rest
  | pending, c :: rest => c != '%' && pending = 0 && checkUri 0 rest
  | pending, [] => pending = 0

/-- The address of a tag, which must not be empty unless something stands before it. -/
def tagUri? (verbatim : Bool) (before : Nat) (c : Cursor) : Option (List Char × Cursor) :=
  let uri := c.rest.takeWhile (isUriChar verbatim)
  if (uri.isEmpty && before = 0) || !checkUri 0 uri then none
  else some (uri, c.advance uri.length)

/-- A directive: `%YAML` with a version or `%TAG` with a handle and an address. -/
def directive (s : Lexer) : Option Lexer := do
  let c := s.cursor.advance 1
  let name := c.rest.takeWhile isWord
  let c := c.advance name.length
  if name.isEmpty || !endsWord c.rest then none
  let (t, c) ←
    if name = ['Y', 'A', 'M', 'L'] then do
      let (major, c) ← number? (c.skipWhile isBlank)
      if !c.isAt '.' then none
      let (minor, c) ← number? (c.advance 1)
      some (Token.version major minor, c)
    else if name = ['T', 'A', 'G'] then do
      let (handle, c) ← tagHandle? true (c.skipWhile isBlank)
      if !c.peek.any isBlank then none
      let (_, c) ← tagUri? true 0 (c.skipWhile isBlank)
      if !endsWord c.rest then none
      some (Token.tagDirective (String.ofList handle), c)
    else none
  let c := c.skipWhile isBlank
  let c := if c.isAt '#' then c.skipWhile (!isBreak ·) else c
  if !endsLine c.rest then none
  return { s with cursor := c.takeBreak.2 }.push t

/-- The name of an anchor, after its indicator. -/
def anchorName? (c : Cursor) : Option (String × Cursor) :=
  let name := c.rest.takeWhile isWord
  let c := c.advance name.length
  if name.isEmpty then none
  else if endsWord c.rest || c.peek.any ("?:,]\x7d%@\x60".contains ·) then
    some (String.ofList name, c)
  else none

/-- A tag: `!<address>`, `!handle!suffix` or `!suffix`. -/
def tag (s : Lexer) : Option Lexer := do
  let c := s.cursor
  let (handle, c) ←
    if (c.advance 1).isAt '<' then do
      let (_, c) ← tagUri? true 0 (c.advance 2)
      if !c.isAt '>' then none
      some ("", c.advance 1)
    else do
      let (handle, next) ← tagHandle? false c
      if handle.length > 1 && handle.getLast? = some '!' then
        let (_, next) ← tagUri? false 0 next
        some (String.ofList handle, next)
      else
        let (suffix, next) ← tagUri? false handle.length next
        some (if handle.length + suffix.length > 1 then "!" else "", next)
  if !endsWord c.rest && !(s.flow > 0 && c.isAt ',') then none
  return { s with cursor := c }.push (.tag handle)

/-! ### Tokens -/

/-- Closes all block collections, before a mark or a directive. -/
def closeBlocks (s : Lexer) : Option Lexer :=
  ((s.dedentTo (-1)).dropKey).map (·.allowKey false)

/-- A mark between documents. -/
def documentMark (s : Lexer) (t : Token) : Option Lexer := do
  return ((← s.closeBlocks).advance 3).push t

/-- The end of the text. -/
def finish (s : Lexer) : Option Lexer := do
  return { (← s.closeBlocks) with done := true }

/-- The start of a flow collection. -/
def openFlow (s : Lexer) (t : Token) : Option Lexer := do
  let s ← s.saveKey
  return (({ s with keys := {} :: s.keys, flow := s.flow + 1 }.allowKey true).advance 1).push t

/-- The end of a flow collection. -/
def closeFlow (s : Lexer) (t : Token) : Option Lexer := do
  let s ← s.dropKey
  let s := if s.flow > 0 then { s with keys := s.keys.tail, flow := s.flow - 1 } else s
  return ((s.allowKey false).advance 1).push t

/-- The separator in flow collections. -/
def flowEntry (s : Lexer) : Option Lexer := do
  return (((← s.dropKey).allowKey true).advance 1).push .flowEntry

/-- The indicator of an entry of a block sequence. -/
def blockEntry (s : Lexer) : Option Lexer := do
  if s.flow = 0 && !s.keyAllowed then none
  let s := s.indentTo s.cursor.column .blockSequence s.tokens.size
  return (((← s.dropKey).allowKey true).advance 1).push .blockEntry

/-- The indicator of a key. -/
def key (s : Lexer) : Option Lexer := do
  if s.flow = 0 && !s.keyAllowed then none
  let s := s.indentTo s.cursor.column .blockMapping s.tokens.size
  return (((← s.dropKey).allowKey (s.flow = 0)).advance 1).push .key

/-- The indicator of a value.  If a key may have started, it becomes one. -/
def value (s : Lexer) : Option Lexer :=
  match s.keys with
  | k :: ks =>
    if k.possible then
      let s := { s with tokens := s.tokens.insertIdxIfInBounds k.token .key, keys := {} :: ks }
      let s := s.indentTo k.column .blockMapping k.token
      some (((s.allowKey false).advance 1).push .value)
    else if s.flow = 0 && !s.keyAllowed then none
    else
      let s := s.indentTo s.cursor.column .blockMapping s.tokens.size
      some (((s.allowKey (s.flow = 0)).advance 1).push .value)
  | [] => none

/-- An anchor or an alias. -/
def anchor (s : Lexer) (t : String → Token) : Option Lexer := do
  let s ← s.saveKey
  let (name, c) ← anchorName? (s.cursor.advance 1)
  return { s.allowKey false with cursor := c }.push (t name)

/-- A block scalar. -/
def blockScalar (s : Lexer) (literal : Bool) : Option Lexer := do
  let s ← s.dropKey
  let (text, c) ← Scalar.block literal s.indent s.cursor
  return { s.allowKey true with cursor := c }.push (.scalar text false)

/-- A quoted scalar. -/
def quotedScalar (s : Lexer) (single : Bool) : Option Lexer := do
  let s ← s.saveKey
  let (text, c) ← Scalar.quoted single s.cursor
  return { s.allowKey false with cursor := c }.push (.scalar text false)

/-- A plain scalar.  After it a key is allowed if it ends with its line. -/
def plainScalar (s : Lexer) : Option Lexer := do
  let s ← s.saveKey
  let (text, broken, c) ← Scalar.plain (s.flow > 0) (s.indent + 1).toNat s.cursor
  return { s.allowKey broken with cursor := c }.push (.scalar text true)

/-- Whether a plain scalar can start with this character, given what follows it. -/
def startsPlain (flow : Bool) (c : Char) (rest : List Char) : Bool :=
  !(isSpace c || "-?:,[]\x7b\x7d#&*!|>'\"%@\x60".contains c) ||
  (c = '-' && !rest.head?.any isBlank) ||
  (!flow && (c = '?' || c = ':') && !endsWord rest)

/-- The token that starts with a character. -/
def token (s : Lexer) (c : Char) (rest : List Char) : Option Lexer :=
  let flow := s.flow > 0
  if s.cursor.column = 0 && c = '%' then s.closeBlocks.bind directive
  else if s.cursor.atDocumentMark then
    s.documentMark (if c = '-' then .documentStart else .documentEnd)
  else if c = '[' then s.openFlow .flowSequence
  else if c = '\x7b' then s.openFlow .flowMapping
  else if c = ']' then s.closeFlow .flowSequenceEnd
  else if c = '\x7d' then s.closeFlow .flowMappingEnd
  else if c = ',' then s.flowEntry
  else if c = '-' && endsWord rest then s.blockEntry
  else if c = '?' && (flow || endsWord rest) then s.key
  else if c = ':' && (flow || endsWord rest) then s.value
  else if c = '*' then s.anchor .alias
  else if c = '&' then s.anchor .anchor
  else if c = '!' then (s.saveKey.map (·.allowKey false)).bind tag
  else if c = '|' && !flow then s.blockScalar true
  else if c = '>' && !flow then s.blockScalar false
  else if c = '\'' then s.quotedScalar true
  else if c = '"' then s.quotedScalar false
  else if startsPlain flow c rest then s.plainScalar
  else none

/-- Reads one more token. -/
def step (s : Lexer) : Option Lexer := do
  let s := s.toNextToken (s.cursor.rest.length + 1)
  let s ← s.dropStaleKeys
  let s := s.dedentTo s.cursor.column
  match s.cursor.rest with
  | [] => s.finish
  | c :: rest => s.token c rest

/-- Reads the remaining tokens. -/
def run : Nat → Lexer → Option Lexer
  | 0, _ => none
  | n + 1, s => if s.done then some s else s.step.bind (run n)

end Lexer

/-- The tokens of a text, whose first character may be a mark of the order of its bytes.  Every step
of the lexer reads a character or the end of the text. -/
def Token.scan (s : String) : Option (List Token) :=
  let cs := match s.toList with
    | '\ufeff' :: cs => cs
    | cs => cs
  if cs.all isAllowed then
    (Lexer.run (cs.length + 2) { cursor := { rest := cs } }).map (·.tokens.toList)
  else none

end Groundwork.Yaml
