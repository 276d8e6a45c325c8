/-
The words by which messages say what a schema expects.
-/
import Agenda.Schema.Basic

set_option autoImplicit false

namespace Agenda.Schema

/-- A choice in words. -/
def oneOfText (choices : List String) : String := "one of [" ++ ", ".intercalate choices ++ "]"

mutual

/-- What a schema expects. A reference is known by its name alone, and an object is just an
object. -/
def describe : Schema → String
  | kind k => k.name
  | literals [word] _ => word
  | literals words _ => oneOfText words
  | array element => "an array of " ++ element.describe
  | union [kind .absent, inner] => "an optional " ++ inner.describe
  | union candidates => oneOfText (describeAll candidates)
  | object _ _ => "object"
  | reference name => name

/-- What each of several schemas expects. -/
def describeAll : List Schema → List String
  | [] => []
  | s :: rest => s.describe :: describeAll rest

end

end Agenda.Schema
