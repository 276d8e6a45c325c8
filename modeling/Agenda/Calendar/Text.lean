/-
The text of a whole calendar: who made it, its name, and one event for each piece of homework.

The lines are written with the name of the library that writes them where the program should stand.
The written text is then taken apart again into lines, as they are ended by a line feed with or
without a carriage return before it, and the line of the product is replaced.
-/
import Agenda.Calendar.Event

set_option autoImplicit false

namespace Agenda.Calendar

/-! ## Lines -/

/-- The product that the writer of calendars names. -/
def writerProduct : String := "ICALENDAR-RS"

/-- The lines of the events, counted from `number`. -/
def eventsLines (options : Options) (occasion : Occasion) (number : Nat) :
    List Homework → Except Unschedulable (List (List Char))
  | [] => .ok []
  | h :: rest => do
    let lines ← eventLines options occasion number h
    let more ← eventsLines options occasion (number + 1) rest
    .ok (lines ++ more)

/-- The lines of a calendar before they are folded. -/
def lines (options : Options) (occasion : Occasion) (homework : List Homework) :
    Except Unschedulable (List (List Char)) := do
  let events ← eventsLines options occasion 0 homework
  .ok ([property "BEGIN" "VCALENDAR".toList,
    property "VERSION" "2.0".toList,
    property "PRODID" writerProduct.toList,
    property "CALSCALE" "GREGORIAN".toList,
    property "X-WR-CALNAME" (escape options.name)] ++ events ++ [property "END" "VCALENDAR".toList])

/-! ## The product -/

/-- The identifier of the program that makes the calendar. -/
def productIdentifier : String := "-//huiswerk-ical//EN"

/-- What was read of a line, in reverse, without a carriage return at its end. -/
def dropReturn : List Char → List Char
  | '\r' :: before => before
  | read => read

/-- The lines of a text, given what precedes it on its first line, in reverse. A line ends with a
line feed or with the text, and a carriage return before the line feed does not belong to it. -/
def textLinesFrom (read : List Char) : List Char → List (List Char)
  | [] => if read.isEmpty then [] else [read.reverse]
  | c :: rest =>
    if c = '\n' then (dropReturn read).reverse :: textLinesFrom [] rest
    else textLinesFrom (c :: read) rest

/-- The lines of a text. -/
def textLines (text : List Char) : List (List Char) := textLinesFrom [] text

/-- Puts the program where a line names the product. -/
def renameProduct (line : List Char) : List Char :=
  if (property "PRODID" []).isPrefixOf line then property "PRODID" productIdentifier.toList
  else line

/-- Puts the program where a text names the product, and ends all lines alike. -/
def rewriteProduct (text : List Char) : List Char :=
  (textLines text).flatMap fun line => renameProduct line ++ lineEnd

/-- The text of a calendar. -/
def text (options : Options) (occasion : Occasion) (homework : List Homework) :
    Except Unschedulable String := do
  let lines ← lines options occasion homework
  let written ← (writeLines lines).mapError .unfoldable
  .ok (String.ofList (rewriteProduct written))

end Agenda.Calendar
