/-
Text with tags.

A tag is everything from a `<` to the first `>` after it, line breaks included. A `<` that no `>`
follows stands for itself.
-/

set_option autoImplicit false

namespace Agenda.Markup

/-- The text without its tags. The text of an open tag, read so far in reverse, is kept until it is
known that the tag closes. -/
def strip : Option (List Char) → List Char → List Char
  | none, [] => []
  | some kept, [] => kept.reverse
  | none, c :: cs => if c = '<' then strip (some [c]) cs else c :: strip none cs
  | some kept, c :: cs => if c = '>' then strip none cs else strip (some (c :: kept)) cs

/-- The text without its tags. -/
def plainText (text : String) : String := String.ofList (strip none text.toList)

end Agenda.Markup
