/-
Writing values as JSON text.

Strings escape the quote, the backslash and the control characters, and nothing else. The compact
text has no spaces; the indented text puts each element and each member on a line of its own, two
spaces further in than its surroundings, and leaves empty arrays and objects on one line. A leaf
that the format cannot spell is written as a string, spelled by a function that the writer is
given.
-/
import Agenda.Json.Value

set_option autoImplicit false

namespace Agenda.Json.Writer

/-- A hexadecimal digit, in lower case. -/
def hexDigit (n : Nat) : Char := (Nat.toDigits 16 n).headD '0'

/-- A character as it stands inside a string. -/
def escape (c : Char) : List Char :=
  if c = '"' then ['\\', '"']
  else if c = '\\' then ['\\', '\\']
  else if c = '\x08' then ['\\', 'b']
  else if c = '\t' then ['\\', 't']
  else if c = '\n' then ['\\', 'n']
  else if c = '\x0c' then ['\\', 'f']
  else if c = '\r' then ['\\', 'r']
  else if c.toNat < 0x20 then
    ['\\', 'u', '0', '0', hexDigit (c.toNat / 16), hexDigit (c.toNat % 16)]
  else [c]

/-- A string in quotes. -/
def quote (s : String) : List Char := '"' :: (s.toList.flatMap escape ++ ['"'])

/-- A word of the format. -/
def bool (b : Bool) : List Char :=
  if b then ['t', 'r', 'u', 'e'] else ['f', 'a', 'l', 's', 'e']

/-- The word for nothing. -/
def null : List Char := ['n', 'u', 'l', 'l']

/-- Texts with a comma and a separator between them. -/
def separated (separator : List Char) : List (List Char) → List Char
  | [] => []
  | [t] => t
  | t :: rest => t ++ ',' :: (separator ++ separated separator rest)

section

variable {α : Type} (spell : α → String)

mutual

/-- The text without any spaces. -/
def compact : Value α → List Char
  | .null => null
  | .bool b => bool b
  | .number n => n.text
  | .string s => quote s
  | .atom a => quote (spell a)
  | .array items => '[' :: (separated [] (compactItems items) ++ [']'])
  | .object members => '{' :: (separated [] (compactMembers members) ++ ['}'])

/-- The texts of the elements of an array. -/
def compactItems : List (Value α) → List (List Char)
  | [] => []
  | v :: rest => compact v :: compactItems rest

/-- The texts of the members of an object. -/
def compactMembers : List (String × Value α) → List (List Char)
  | [] => []
  | (k, v) :: rest => (quote k ++ ':' :: compact v) :: compactMembers rest

end

/-- A line break and the indentation of a level. -/
def newLine (level : Nat) : List Char := '\n' :: List.replicate (2 * level) ' '

/-- Elements or members of a level between brackets, each on a line of its own. -/
def block (opening closing : Char) (level : Nat) : List (List Char) → List Char
  | [] => [opening, closing]
  | t :: rest =>
    opening :: (newLine (level + 1) ++ separated (newLine (level + 1)) (t :: rest) ++
      newLine level ++ [closing])

mutual

/-- The indented text of a value that stands on a level. -/
def pretty : Nat → Value α → List Char
  | _, .null => null
  | _, .bool b => bool b
  | _, .number n => n.text
  | _, .string s => quote s
  | _, .atom a => quote (spell a)
  | level, .array items => block '[' ']' level (prettyItems (level + 1) items)
  | level, .object members => block '{' '}' level (prettyMembers (level + 1) members)

/-- The indented texts of the elements of an array. -/
def prettyItems : Nat → List (Value α) → List (List Char)
  | _, [] => []
  | level, v :: rest => pretty level v :: prettyItems level rest

/-- The indented texts of the members of an object. -/
def prettyMembers : Nat → List (String × Value α) → List (List Char)
  | _, [] => []
  | level, (k, v) :: rest =>
    (quote k ++ ':' :: ' ' :: pretty level v) :: prettyMembers level rest

end

end

end Agenda.Json.Writer

namespace Agenda.Json

/-- The compact text of a value of the format. -/
def compact (v : Json) : String := String.ofList (Writer.compact Empty.elim v)

/-- The indented text of a value of the format. -/
def pretty (v : Json) : String := String.ofList (Writer.pretty Empty.elim 0 v)

end Agenda.Json
