/-
Content lines of a calendar.

A text value escapes the backslash, the comma and the semicolon, and writes a line break as two
characters, so that a value never ends its line. A line of more than 75 bytes is folded: a line
break and one space are put between characters, about every 74 bytes. The place of a cut is sought
backwards from the greatest length, past places that lie inside a character, and it steps back
once more wherever the number of the place, taken as the number of a character of the line, is
that of a blank.

The number of a character is less than its place in bytes, so those blanks may stand anywhere in
the line, and so many of them may be met that a cut is led back to the one before it or beyond.
Then the line is not folded at all.
-/
import Agenda.Text.Blank
import Agenda.Text.Bytes

set_option autoImplicit false

namespace Agenda.Calendar

/-! ## Text values -/

/-- A character of a text value. -/
def escapeChar (c : Char) : List Char :=
  if c = '\\' ∨ c = ',' ∨ c = ';' then ['\\', c]
  else if c = '\n' then ['\\', 'n']
  else [c]

/-- A text value. -/
def escape (text : String) : List Char := text.toList.flatMap escapeChar

/-! ## Folding -/

/-- The greatest length of a line that is not folded, in bytes. -/
def lineLimit : Nat := 75

/-- Whether the character with this number is a blank. -/
def blankAt (chars : List Char) (i : Nat) : Bool :=
  match chars[i]? with
  | some c => isBlank c
  | none => false

/-- The nearest place for a cut at or before this one. -/
def retreat (line : List Char) : Nat → Nat
  | 0 => 0
  | 1 => if Bytes.isBoundary line 1 then 1 else 0
  | n + 2 =>
    if Bytes.isBoundary line (n + 2) then n + 2
    else if blankAt line (n + 1) then retreat line n
    else retreat line (n + 1)

/-- The place of a cut for the greatest length. -/
def cut (line : List Char) (limit : Nat) : Nat :=
  retreat line (if blankAt line limit then limit - 1 else limit)

/-- Why a line cannot be folded. -/
inductive Unfoldable where
  /-- A cut lies before the one that was made last. -/
  | backwards
  /-- The cuts stay where they are, so there is no end to them. -/
  | endless
deriving DecidableEq

/-- The pieces of what is left of a line after `start` bytes, the next of which may reach to
`limit`. The first argument bounds the number of pieces. -/
def piecesFrom (line : List Char) :
    Nat → Nat → Nat → List Char → Except Unfoldable (List (List Char))
  | 0, _, _, _ => .error .endless
  | bound + 1, start, limit, rest =>
    if Bytes.count rest ≤ lineLimit then .ok [rest]
    else
      let place := cut line limit
      if place < start then .error .backwards
      else do
        let (piece, rest) := Bytes.split (place - start) rest
        let more ← piecesFrom line bound place (place + lineLimit - 1) rest
        .ok (piece :: more)

/-- The pieces into which a line is folded. Each has a character at least, but for the first one,
whose place is sought from a limit of its own; so with one piece more than that they repeat. -/
def pieces (line : List Char) : Except Unfoldable (List (List Char)) :=
  piecesFrom line (line.length + 2) 0 lineLimit line

/-- The end of a line. -/
def lineEnd : List Char := ['\r', '\n']

/-- A line as it is written: folded, and ended. -/
def writeLine (line : List Char) : Except Unfoldable (List Char) := do
  .ok (List.intercalate (lineEnd ++ [' ']) (← pieces line) ++ lineEnd)

/-- Several lines as they are written. -/
def writeLines : List (List Char) → Except Unfoldable (List Char)
  | [] => .ok []
  | line :: rest => do
    let written ← writeLine line
    .ok (written ++ (← writeLines rest))

end Agenda.Calendar
