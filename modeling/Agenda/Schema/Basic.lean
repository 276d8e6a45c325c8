/-
Schemas of documents.

A schema says what a value looks like on the wire and what its parts are called in a converted
document. Schemas refer to one another by name, so that they may be recursive; a union is tried from
the left, and an object names its properties twice, once for each side.
-/

set_option autoImplicit false

namespace Agenda

/-- The schemas without parts. -/
inductive Kind where
  | string
  | number
  | boolean
  | timestamp
  | any
  | null
  | never
  /-- The key is missing altogether. -/
  | absent
deriving DecidableEq

/-- The name of a kind. -/
def Kind.name : Kind → String
  | string => "string"
  | number => "number"
  | boolean => "boolean"
  | timestamp => "timestamp"
  | any => "any"
  | null => "null"
  | never => "never"
  | absent => "absent"

/-- A property of an object: its name on the wire, its name in a converted document, and the
schema of its value. -/
structure Property (σ : Type) where
  wireName : String
  internalName : String
  schema : σ

/-- What a value looks like. -/
inductive Schema where
  | kind (k : Kind)
  /-- One of some words, each given once. -/
  | literals (words : List String) (distinct : words.Nodup)
  | array (element : Schema)
  /-- The first candidate that accepts a value decides. -/
  | union (candidates : List Schema)
  /-- Properties, and the schema of keys that are not declared; without one they are refused. -/
  | object (properties : List (Property Schema)) (additional : Option Schema)
  | reference (name : String)

instance : Inhabited Schema := ⟨.kind .never⟩

/-! ## Building schemas -/

/-- A property with the same name on both sides. -/
def Property.plain {σ : Type} (name : String) (schema : σ) : Property σ := ⟨name, name, schema⟩

namespace Schema

/-- The words of a list at their first occurrences. -/
def firstOccurrences : List String → List String
  | [] => []
  | w :: rest => w :: (firstOccurrences rest).filter (· ≠ w)

/-- First occurrences are distinct. -/
theorem nodup_firstOccurrences (words : List String) : (firstOccurrences words).Nodup := by
  induction words with
  | nil => simp [firstOccurrences]
  | cons w rest ih =>
    rw [firstOccurrences, List.nodup_cons]
    exact ⟨by simp, ih.filter _⟩

/-- One of some words; repeated ones count once. -/
def oneOf (words : List String) : Schema :=
  literals (firstOccurrences words) (nodup_firstOccurrences words)

/-- The key may be missing. -/
def optional (inner : Schema) : Schema := union [kind .absent, inner]

end Schema

end Agenda
