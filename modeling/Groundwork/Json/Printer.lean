/-
Writing JSON text.

Each member and each value stands on a line of its own, two spaces further in than the record or
list around it; an empty record or list stays on its line.

* `Json.quote` — a text in quotes;
* `Json.render` — the text of a datum.
-/
import Groundwork.Datum

set_option autoImplicit false

namespace Groundwork.Json

/-- A hexadecimal digit. -/
def hexChar (n : Nat) : Char := (Nat.digitChar n)

/-- A character as it is written between quotes. -/
def escape (c : Char) : List Char :=
  match c with
  | '"' => ['\\', '"']
  | '\\' => ['\\', '\\']
  | '\n' => ['\\', 'n']
  | '\r' => ['\\', 'r']
  | '\t' => ['\\', 't']
  | '\x08' => ['\\', 'b']
  | '\x0c' => ['\\', 'f']
  | c =>
    if c < ' ' then ['\\', 'u', '0', '0', hexChar (c.toNat / 16), hexChar (c.toNat % 16)] else [c]

/-- A text in quotes. -/
def quote (s : String) : String :=
  "\"" ++ String.ofList (s.toList.flatMap escape) ++ "\""

/-- A line break followed by the indentation of a level. -/
def newLine (level : Nat) : String := "\n" ++ String.ofList (List.replicate (2 * level) ' ')

mutual

/-- The text of a datum on the given level. -/
def renderAt (level : Nat) : Datum → String
  | .null => "null"
  | .bool b => toString b
  | .int n => toString n
  | .real x => x.text
  | .text s => quote s
  | .list [] => "[]"
  | .list (d :: l) =>
    "[" ++ newLine (level + 1) ++ renderAt (level + 1) d ++ renderItems (level + 1) l ++
      newLine level ++ "]"
  | .record [] => "\x7b\x7d"
  | .record ((k, d) :: l) =>
    "\x7b" ++ newLine (level + 1) ++ quote k ++ ": " ++ renderAt (level + 1) d ++
      renderFields (level + 1) l ++ newLine level ++ "\x7d"
  | .garbled => "null"

/-- The values of a list after its first one. -/
def renderItems (level : Nat) : List Datum → String
  | [] => ""
  | d :: l => "," ++ newLine level ++ renderAt level d ++ renderItems level l

/-- The members of a record after its first one. -/
def renderFields (level : Nat) : List (String × Datum) → String
  | [] => ""
  | (k, d) :: l =>
    "," ++ newLine level ++ quote k ++ ": " ++ renderAt level d ++ renderFields level l

end

/-- The text of a datum. -/
def render (d : Datum) : String := renderAt 0 d

end Groundwork.Json
