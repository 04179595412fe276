/-!
Bytes as text, whatever they are.

Bytes are read as UTF-8.  Where they are not, the replacement character stands for the longest run
of bytes that could still have become a character.

* `Text.Unfinished` — a character of which bytes are still missing;
* `Text.feed` — reads one byte;
* `Text.ofBytes` — the text of bytes.
-/

set_option autoImplicit false

namespace Groundwork.Text

/-- A character of which bytes are still missing. -/
structure Unfinished where
  /-- The number of missing bytes. -/
  owed : Nat
  /-- The least byte that may be next. -/
  low : Nat := 0x80
  /-- The greatest byte that may be next. -/
  high : Nat := 0xBF
  /-- The number that the bits so far make. -/
  value : Nat

/-- The character that stands for bytes that are not text. -/
def replacement : Char := '\ufffd'

/-- Reads a byte where a character starts: the complete characters, and the unfinished one. -/
def feedFirst (b : Nat) : List Char × Option Unfinished :=
  if b < 0x80 then ([Char.ofNat b], none)
  else if b < 0xC2 then ([replacement], none)
  else if b < 0xE0 then ([], some { owed := 1, value := b - 0xC0 })
  else if b = 0xE0 then ([], some { owed := 2, low := 0xA0, value := 0 })
  else if b = 0xED then ([], some { owed := 2, high := 0x9F, value := 0xD })
  else if b < 0xF0 then ([], some { owed := 2, value := b - 0xE0 })
  else if b = 0xF0 then ([], some { owed := 3, low := 0x90, value := 0 })
  else if b < 0xF4 then ([], some { owed := 3, value := b - 0xF0 })
  else if b = 0xF4 then ([], some { owed := 3, high := 0x8F, value := 4 })
  else ([replacement], none)

/-- Reads a byte: the complete characters, and the unfinished one. -/
def feed (u : Option Unfinished) (b : Nat) : List Char × Option Unfinished :=
  match u with
  | none => feedFirst b
  | some u =>
    if u.low ≤ b && b ≤ u.high then
      let value := 0x40 * u.value + b % 0x40
      if u.owed ≤ 1 then ([Char.ofNat value], none)
      else ([], some { owed := u.owed - 1, value })
    else
      let (cs, next) := feedFirst b
      (replacement :: cs, next)

/-- The characters of bytes after an unfinished character. -/
def ofBytesFrom (u : Option Unfinished) : List UInt8 → List Char
  | [] => if u.isSome then [replacement] else []
  | b :: rest =>
    let (cs, next) := feed u b.toNat
    cs ++ ofBytesFrom next rest

/-- The text of bytes. -/
def ofBytes (b : ByteArray) : String := String.ofList (ofBytesFrom none b.data.toList)

end Groundwork.Text
