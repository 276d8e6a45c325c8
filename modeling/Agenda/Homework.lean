/-
Homework: what a pupil's calendar needs to know of a plan item.

The identifier is the number of the plan item's first link, as it is written; without a link or
without a date there is no homework. A title needs both a topic and a description, and falls back to
the code of the subject.
-/
import Agenda.Document.Model
import Agenda.Markup
import Agenda.Number

set_option autoImplicit false

namespace Agenda

/-- Something to be done for a lesson. -/
structure Homework where
  subject : String
  /-- Plain text. -/
  description : String
  subjectCode : String
  identifier : String
  date : Instant
  created : Option Instant
deriving DecidableEq

namespace Homework

/-- The homework that an assignment sets, if it has an identifier and a date. -/
def ofAssignment? (a : Assignment) : Option Homework := do
  let link ← a.planItem.links.head?
  let date ← a.date
  pure
    { subject := a.planItem.topic
      description := Markup.plainText a.planItem.description
      subjectCode := a.lessonGroup.subject.abbreviation
      identifier := String.ofList link.id.text
      date
      created := a.created }

/-- The homework of a document, in its order. -/
def ofDocument (document : Document) : List Homework := document.items.filterMap ofAssignment?

/-- The subject and its code; the code alone if the subject or the description is empty. -/
def title (h : Homework) : String :=
  if h.description.isEmpty ∨ h.subject.isEmpty then h.subjectCode
  else h.subject ++ " | " ++ h.subjectCode

/-- The description, or the subject if there is none. -/
def body (h : Homework) : String := if h.description.isEmpty then h.subject else h.description

/-! ## One entry per identifier -/

/-- The first homework of each identifier. `seen` holds the identifiers met so far. -/
def firstsAfter (seen : List String) : List Homework → List Homework
  | [] => []
  | h :: rest =>
    if h.identifier ∈ seen then firstsAfter seen rest
    else h :: firstsAfter (h.identifier :: seen) rest

/-- Earlier dates come first, and of one date the smaller identifier. -/
def precedes (g h : Homework) : Bool :=
  g.date.lt h.date || (g.date = h.date && g.identifier ≤ h.identifier)

/-- One entry for each identifier, the first one, in order of date and identifier. -/
def unique (all : List Homework) : List Homework := (firstsAfter [] all).mergeSort precedes

end Homework

end Agenda
