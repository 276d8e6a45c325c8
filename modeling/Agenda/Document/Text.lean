/-
Documents as text.

Reading goes through three stages: the text becomes JSON, the schema engine validates it and gives
it internal names, and the forms make a typed document of it. Writing goes back the same way. Both
directions can also stop at the converted document in the middle.
-/
import Agenda.Conversion.Engine
import Agenda.Document.Layout
import Agenda.Document.Schema
import Agenda.Json.Reader

set_option autoImplicit false

namespace Agenda

/-- Why a document could not be read or written. -/
inductive DocumentError where
  | malformed (error : Json.SyntaxError)
  | conversion (error : ConversionError)
  | mismatch (mismatch : Mismatch)

/-- The message of an error. -/
def DocumentError.message : DocumentError → String
  | malformed e => "malformed JSON input: " ++ e.message
  | conversion e => e.message
  | mismatch m =>
    "validated value does not fit the typed model at " ++ m.path.text ++ ": " ++ m.misfit.message

/-- The message followed by those of its causes. -/
def DocumentError.chain : DocumentError → List String
  | malformed e => [message (malformed e), e.message]
  | e => [e.message]

namespace Document

/-- Reads and validates a document, up to its converted form. -/
def readData (text : String) : Except DocumentError Data := do
  let wire ← (Json.read text).mapError .malformed
  (Engine.cast registry root wire.lift).mapError .conversion

/-- Makes a typed document of a converted one. -/
def ofData (d : Data) : Except DocumentError Document :=
  (form.read d).mapError .mismatch

/-- Reads a document. -/
def read (text : String) : Except DocumentError Document := do
  ofData (← readData text)

/-- Writes a converted document as indented text. -/
def writeData (d : Data) : Except DocumentError String := do
  let wire ← (Engine.uncast registry root d).mapError .conversion
  .ok wire.pretty

/-- A typed document as a JSON value, by its internal names. -/
def toJson (document : Document) : Json := form.write document

/-- Writes a document. -/
def write (document : Document) : Except DocumentError String := writeData document.toJson.lift

end Document

end Agenda
