/-
The JSON Schema document of a registry.

Every schema becomes a definition under `$defs`, by its wire names, and references become
addresses of definitions. That a key may be missing is said by leaving it out of `required`, so
absence is no candidate of a union there.
-/
import Agenda.Json.Value
import Agenda.Schema.Registry

set_option autoImplicit false

namespace Agenda.Schema

/-- A JSON object with the given members. -/
def jsonObject (members : List (String × Json)) : Json := .object members

/-- The address of a definition. -/
def address (name : String) : String := "#/$defs/" ++ name

mutual

/-- Whether an object may lack a key with this schema. -/
def isOptional : Schema → Bool
  | kind .absent => true
  | kind .any => true
  | union candidates => anyOptional candidates
  | _ => false

/-- Whether some candidate may be lacking. -/
def anyOptional : List Schema → Bool
  | [] => false
  | s :: rest => s.isOptional || anyOptional rest

end

/-- The keywords for a kind. -/
def kindKeywords : Kind → Json
  | .string => jsonObject [("type", .string "string")]
  | .number => jsonObject [("type", .string "number")]
  | .boolean => jsonObject [("type", .string "boolean")]
  | .null => jsonObject [("type", .string "null")]
  | .timestamp =>
    jsonObject [("oneOf", .array
      [jsonObject [("type", .string "string"), ("format", .string "date-time")],
        jsonObject [("type", .string "null")]])]
  | .any => jsonObject []
  | .absent => jsonObject []
  | .never => jsonObject [("not", jsonObject [])]

/-- The keyword for words: one that must be, or some to choose from. -/
def literalKeywords : List String → Json
  | [word] => jsonObject [("const", .string word)]
  | words => jsonObject [("enum", .array (words.map .string))]

/-- The keyword for candidates: a single one stands for itself. -/
def unionKeywords : List Json → Json
  | [arm] => arm
  | arms => jsonObject [("anyOf", .array arms)]

/-- The wire names that an object must have. -/
def requiredNames : List (Property Schema) → List String
  | [] => []
  | p :: rest =>
    if p.schema.isOptional then requiredNames rest else p.wireName :: requiredNames rest

/-- The keywords for an object. The names that must be there are left out if there are none. -/
def objectKeywords (required : List String) (properties : List (String × Json))
    (additional : Json) : Json :=
  jsonObject ([("type", .string "object"), ("properties", .object (Table.ofList properties)),
    ("additionalProperties", additional)] ++
    if required.isEmpty then [] else [("required", .array (required.map .string))])

mutual

/-- The definition of a schema. -/
def keywords : Schema → Json
  | kind k => kindKeywords k
  | literals words _ => literalKeywords words
  | array element => jsonObject [("type", .string "array"), ("items", element.keywords)]
  | union candidates => unionKeywords (armKeywords candidates)
  | object properties none =>
    objectKeywords (requiredNames properties) (propertyKeywords properties) (.bool false)
  | object properties (some extra) =>
    objectKeywords (requiredNames properties) (propertyKeywords properties) extra.keywords
  | reference name => jsonObject [("$ref", .string (address name))]

/-- The definitions of the candidates of a union, absence left out. -/
def armKeywords : List Schema → List Json
  | [] => []
  | kind .absent :: rest => armKeywords rest
  | s :: rest => s.keywords :: armKeywords rest

/-- The definitions of properties under their wire names. -/
def propertyKeywords : List (Property Schema) → List (String × Json)
  | [] => []
  | p :: rest => (p.wireName, p.schema.keywords) :: propertyKeywords rest

end

end Agenda.Schema

namespace Agenda.Registry

/-- The document with every schema as a definition and a named one as its root; none if that name is
not registered. -/
def jsonSchema? (r : Registry) (root : String) : Option Json :=
  if (r.find? root).isSome then
    some (.object [("$schema", .string "https://json-schema.org/draft/2020-12/schema"),
      ("$ref", .string (Schema.address root)),
      ("$defs", .object (r.schemas.map fun p => (p.1, p.2.keywords)))])
  else none

end Agenda.Registry
