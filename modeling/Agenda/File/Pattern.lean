/-
Patterns for names of files.

In a pattern a star stands for any characters, a question mark for one, and brackets for one out
of a class; two stars stand for any folders and must be a whole step of a path. Everything else
stands for itself. A pattern is checked as a whole before it is taken apart into steps, so an
error counts its position from the start.
-/
import Agenda.File.System

set_option autoImplicit false

namespace Agenda

/-- Why a text is no pattern. -/
inductive PatternFault where
  | tooManyStars
  | starsNotAlone
  | invalidClass
deriving DecidableEq

/-- Why a text is no pattern, and near which character. -/
structure PatternError where
  position : Nat
  fault : PatternFault
deriving DecidableEq

/-- The message of a pattern error. -/
def PatternError.message (e : PatternError) : String :=
  "Pattern syntax error near position " ++ toString e.position ++ ": " ++
  match e.fault with
  | .tooManyStars => "wildcards are either regular `*` or recursive `**`"
  | .starsNotAlone => "recursive wildcards must form a single path component"
  | .invalidClass => "invalid range pattern"

/-- A part of a pattern. -/
inductive Glyph where
  | char (c : Char)
  | anyChar
  | anyChars
  | anyFolders
  /-- A character in one of some ranges, or in none of them. -/
  | oneOf (excluded : Bool) (ranges : List (Char × Char))
deriving DecidableEq

namespace Glyph

/-- The ranges that the characters between brackets stand for. -/
def ranges : List Char → List (Char × Char)
  | a :: '-' :: b :: rest => (a, b) :: ranges rest
  | a :: rest => (a, a) :: ranges rest
  | [] => []

/-- A class after its opening bracket, and what is left. The first character never closes it. -/
def class? : List Char → Option (Glyph × List Char)
  | '!' :: a :: rest =>
    if ']' ∈ rest then
      some (oneOf true (ranges (a :: rest.takeWhile (· ≠ ']'))), (rest.dropWhile (· ≠ ']')).tail)
    else none
  | a :: rest =>
    if a ≠ '!' ∧ ']' ∈ rest then
      some (oneOf false (ranges (a :: rest.takeWhile (· ≠ ']'))), (rest.dropWhile (· ≠ ']')).tail)
    else none
  | [] => none

/-- A run of stars at a position after some character, and what is left. -/
def stars (position : Nat) (before : Option Char) (count : Nat) (rest : List Char) :
    Except PatternError (Glyph × List Char) :=
  if 2 < count then .error ⟨position + 2, .tooManyStars⟩
  else if count < 2 then .ok (anyChars, rest)
  else if before = none ∨ before = some '/' then
    match rest with
    | [] => .ok (anyFolders, [])
    | '/' :: rest => .ok (anyFolders, rest)
    | _ => .error ⟨position + 2, .starsNotAlone⟩
  else .error ⟨position - 1, .starsNotAlone⟩

/-- The part at the front of a pattern, and what is left. -/
def next (position : Nat) (before : Option Char) : Char → List Char →
    Except PatternError (Glyph × List Char)
  | '?', rest => .ok (anyChar, rest)
  | '*', rest =>
    stars position before ((rest.takeWhile (· = '*')).length + 1) (rest.dropWhile (· = '*'))
  | '[', rest =>
    match class? rest with
    | some r => .ok r
    | none => .error ⟨position, .invalidClass⟩
  | c, rest => .ok (char c, rest)

/-- The parts of a pattern from a position on. The first argument bounds their number. -/
def readWithin (whole : List Char) : Nat → List Char → Except PatternError (List Glyph)
  | _, [] => .ok []
  | 0, _ => .ok []
  | fuel + 1, c :: rest => do
    let position := whole.length - (rest.length + 1)
    let before := if position = 0 then none else whole[position - 1]?
    let (glyph, rest) ← next position before c rest
    let glyphs ← readWithin whole fuel rest
    .ok (glyph :: glyphs)

/-- The parts of a pattern. -/
def read (pattern : String) : Except PatternError (List Glyph) :=
  readWithin pattern.toList pattern.length pattern.toList

/-- A text and all that is left of it after some of its characters. -/
def suffixes : List Char → List (List Char)
  | [] => [[]]
  | c :: cs => (c :: cs) :: suffixes cs

/-- Whether a character is in a class. -/
def inRanges (ranges : List (Char × Char)) (c : Char) : Bool :=
  ranges.any fun r => r.1 ≤ c && c ≤ r.2

/-- Whether a name has the shape of a pattern. -/
def accepts : List Glyph → List Char → Bool
  | [], cs => cs.isEmpty
  | anyChars :: rest, cs => (suffixes cs).any (accepts rest)
  | anyFolders :: rest, cs => (suffixes cs).any (accepts rest)
  | char c :: rest, d :: cs => c = d && accepts rest cs
  | anyChar :: rest, _ :: cs => accepts rest cs
  | oneOf excluded ranges :: rest, d :: cs => inRanges ranges d != excluded && accepts rest cs
  | _ :: _, [] => false

/-- The text that a pattern without wildcards stands for. -/
def literal? : List Glyph → Option (List Char)
  | [] => some []
  | char c :: rest => (literal? rest).map (c :: ·)
  | _ :: _ => none

end Glyph

end Agenda
