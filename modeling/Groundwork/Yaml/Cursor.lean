/-!
Positions in YAML text.

A cursor holds the text that is still to be read and where it stands: the number of characters
before it, its line and its column.  A line may end in any of the breaks of the format; all of them
but the two Unicode separators read as a line feed.

* `Cursor` — a position; `Cursor.advance`, `Cursor.takeBreak` — moving on;
* `Gap` — the blanks and breaks between two words of a scalar, and how they are folded.
-/

set_option autoImplicit false

namespace Groundwork.Yaml

/-! ### Characters -/

/-- The characters that end a line. -/
def isBreak (c : Char) : Bool :=
  c = '\r' || c = '\n' || c = '\x85' || c = '\u2028' || c = '\u2029'

/-- The characters that separate words on a line. -/
def isBlank (c : Char) : Bool := c = ' ' || c = '\t'

/-- Blanks and breaks. -/
def isSpace (c : Char) : Bool := isBlank c || isBreak c

/-- The characters of names: anchors, directives and the handles of tags. -/
def isWord (c : Char) : Bool := c.isAlphanum || c = '_' || c = '-'

/-- The indicators of flow collections. -/
def isFlowIndicator (c : Char) : Bool :=
  c = ',' || c = '[' || c = ']' || c = '\x7b' || c = '\x7d'

/-- The characters that a text may hold at all. -/
def isAllowed (c : Char) : Bool :=
  let n := c.toNat
  n = 0x09 || n = 0x0A || n = 0x0D || (0x20 ≤ n && n ≤ 0x7E) || n = 0x85 ||
    (0xA0 ≤ n && n ≤ 0xD7FF) || (0xE000 ≤ n && n ≤ 0xFFFD) || 0x10000 ≤ n

/-- Whether the text is at its end or goes on with a blank or a break. -/
def endsWord : List Char → Bool
  | [] => true
  | c :: _ => isSpace c

/-- Whether the text is at its end or goes on with a break. -/
def endsLine : List Char → Bool
  | [] => true
  | c :: _ => isBreak c

/-! ### Positions -/

/-- A position in a text. -/
structure Cursor where
  /-- The text from here on. -/
  rest : List Char
  /-- The number of characters before. -/
  index : Nat := 0
  /-- The number of breaks before. -/
  line : Nat := 0
  /-- The number of characters before on this line. -/
  column : Nat := 0
deriving Inhabited

namespace Cursor

/-- The position after some characters of the line. -/
def advance (c : Cursor) (n : Nat) : Cursor :=
  { c with rest := c.rest.drop n, index := c.index + n, column := c.column + n }

/-- The position on the line from which this text is left. -/
def goto (c : Cursor) (rest : List Char) : Cursor := c.advance (c.rest.length - rest.length)

/-- The position after the characters of the line that pass a test. -/
def skipWhile (c : Cursor) (p : Char → Bool) : Cursor := c.goto (c.rest.dropWhile p)

/-- The next character. -/
def peek (c : Cursor) : Option Char := c.rest.head?

/-- Whether a given character is next. -/
def isAt (c : Cursor) (ch : Char) : Bool := c.rest.head? == some ch

/-- The start of the next line, where the text goes on with `rest` after a break of `n`
characters. -/
def nextLine (c : Cursor) (n : Nat) (rest : List Char) : Cursor :=
  { rest, index := c.index + n, line := c.line + 1, column := 0 }

/-- Reads a break, if one is next: what it stands for and the start of the next line. -/
def takeBreak (c : Cursor) : List Char × Cursor :=
  match c.rest with
  | '\r' :: '\n' :: rest => (['\n'], c.nextLine 2 rest)
  | ch :: rest =>
    if ch = '\u2028' || ch = '\u2029' then ([ch], c.nextLine 1 rest)
    else if isBreak ch then (['\n'], c.nextLine 1 rest)
    else ([], c)
  | [] => ([], c)

/-- Whether a mark between documents is next. -/
def atDocumentMark (c : Cursor) : Bool :=
  c.column = 0 && endsWord (c.rest.drop 3) &&
    (c.rest.take 3 == ['-', '-', '-'] || c.rest.take 3 == ['.', '.', '.'])

end Cursor

/-! ### Gaps between words -/

/-- The blanks and breaks between two words of a scalar. -/
structure Gap where
  /-- The blanks, where there is no break. -/
  blanks : List Char := []
  /-- The first break. -/
  first : List Char := []
  /-- The breaks after the first one. -/
  more : List Char := []
  /-- Whether there is a break. -/
  broken : Bool := false
deriving Inhabited

namespace Gap

/-- A break becomes a space, or gives way to the breaks that follow it. -/
def text (g : Gap) : List Char :=
  if !g.broken then g.blanks
  else if g.first = ['\n'] then (if g.more.isEmpty then [' '] else g.more)
  else g.first ++ g.more

/-- Reads a gap.  After a break no tab may stand before the column `limit`. -/
def read (limit : Nat) : Nat → Cursor → Gap → Option (Gap × Cursor)
  | 0, c, g => some (g, c)
  | n + 1, c, g =>
    match c.rest with
    | [] => some (g, c)
    | ch :: _ =>
      if isBlank ch then
        if g.broken && ch = '\t' && c.column < limit then none
        else
          read limit n (c.advance 1) (if g.broken then g else { g with blanks := g.blanks ++ [ch] })
      else if isBreak ch then
        let (b, c) := c.takeBreak
        read limit n c
          (if g.broken then { g with more := g.more ++ b }
          else { blanks := [], first := b, more := [], broken := true })
      else some (g, c)

end Gap

end Groundwork.Yaml
