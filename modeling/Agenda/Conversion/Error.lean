/-
How a conversion fails.

A value that does not fit is rejected: the message says what was expected, what stood there instead,
and where, by the key that was read and the named schema that owns it. A union may recover from a
rejection and from nothing else. The other two failures are faults of the registry.
-/
import Agenda.Data
import Agenda.Text.Quoted

set_option autoImplicit false

namespace Agenda

/-- Where a value was checked: the key that was read, and the named schema that owns the key. -/
structure Site where
  key : Option String
  parent : Option String
deriving DecidableEq

/-- Outside any object. -/
def Site.root : Site := ⟨none, none⟩

/-- A value that did not fit, or its absence. -/
structure Rejection where
  expected : String
  value : Option Data
  site : Site

namespace Rejection

/-- What stood there, as JSON text. -/
def actual (r : Rejection) : String := Data.render r.value

/-- What is wrong, in a sentence or two. -/
def message (r : Rejection) : String :=
  "Invalid value" ++
  (match r.site.key with
    | some key => " for key " ++ Quoted.text key
    | none => "") ++
  (match r.site.parent with
    | some parent => " on " ++ parent
    | none => "") ++
  ". Expected " ++ r.expected ++ " but got " ++ r.actual

end Rejection

/-- Why a conversion came to nothing. -/
inductive ConversionError where
  | rejected (rejection : Rejection)
  | schemaNotFound (name : String)
  /-- A schema leads back to itself through references and unions alone. -/
  | endless (name : String)

/-- The message of a failed conversion. -/
def ConversionError.message : ConversionError → String
  | rejected r => r.message
  | schemaNotFound name => "schema not found: " ++ name
  | endless name => "schema without end: " ++ name

end Agenda
