/-
Converted documents.

A converted document is a tree of values with instants as leaves. Lifting JSON into it makes no
instant out of a string; rendering it as JSON spells every instant canonically.
-/
import Agenda.Json.Writer
import Agenda.Time.Writer

set_option autoImplicit false

namespace Agenda

/-- A value of a converted document. -/
abbrev Data := Value Instant

/-- A JSON value as data. No string becomes an instant. -/
def Json.lift (v : Json) : Data := v.graft Empty.elim

namespace Data

/-- The canonical text of an instant. -/
def spell (t : Instant) : String := String.ofList t.canonical

/-- Data as a JSON value, each instant as a string. -/
def toJson (d : Data) : Json := d.graft fun t => .string (spell t)

/-- The compact text of data. -/
def compact (d : Data) : String := String.ofList (Json.Writer.compact spell d)

/-- The indented text of data. -/
def pretty (d : Data) : String := String.ofList (Json.Writer.pretty spell 0 d)

/-- The instant that a value is, if it is one. -/
def instant? : Data → Option Instant
  | .atom t => some t
  | _ => none

/-- A value, or its absence, as messages show it. -/
def render : Option Data → String
  | none => "nothing"
  | some d => d.toJson.compact

end Data

end Agenda
