/-
What a JSON Schema document says about a value.

A schema is an object of keywords, or a boolean, and a value fits it if it meets every keyword. Most
keywords look at the value alone; others hand the value, or parts of it, to the schemas inside. The
keyword `$ref` hands it to the schema at an address, which may be one that the keyword stands in, so
there is no recursion that says what it means. It is left to a reading of the addresses, and a
reading is right if it says of every address what the schema there says. The keywords here are those
that documents of registries use; other ones say nothing.
-/
import Agenda.Json.Value
import Agenda.Proofs.Value
import Agenda.Schema.Export
import Agenda.Time.Reader

set_option autoImplicit false

namespace Agenda

/-! ## Keywords -/

/-- The type of a value, as `type` names it. -/
def Json.typeName : Json → String
  | .null => "null"
  | .bool _ => "boolean"
  | .number _ => "number"
  | .string _ => "string"
  | .array _ => "array"
  | .object _ => "object"

/-- Which values the schema at an address is said to take. -/
def Reading := String → Json → Prop

/-- What a keyword without schemas in it says about a value. -/
def Asserts (ref : Reading) (keyword : String) (argument v : Json) : Prop :=
  match keyword, argument with
  | "type", .string name => v.typeName = name
  | "const", word => v = word
  | "enum", .array words => v ∈ words
  | "format", .string "date-time" => ∀ s, v = .string s → (Timestamp.read? s).isSome
  | "required", .array names =>
    ∀ members, v = .object members → ∀ name, .string name ∈ names → name ∈ Table.keys members
  | "$ref", .string address => ref address v
  | _, _ => True

/-- The names that the `properties` of a schema speak of. -/
def declaredNames (keywords : Table Json) : List String :=
  match keywords.find? "properties" with
  | some (.object properties) => Table.keys properties
  | _ => []

mutual

/-- A value meets a schema. -/
def Fits (ref : Reading) : Json → Json → Prop
  | .bool b, _ => b = true
  | .object keywords, v => FitsKeywords ref (declaredNames keywords) keywords v
  | _, _ => False

/-- A value meets several keywords of a schema that declares some names. -/
def FitsKeywords (ref : Reading) (declared : List String) : List (String × Json) → Json → Prop
  | [], _ => True
  | (keyword, argument) :: rest, v =>
    (match keyword, argument with
    | "items", element => ∀ items, v = .array items → ∀ u ∈ items, Fits ref element u
    | "not", refused => ¬ Fits ref refused v
    | "anyOf", .array arms => FitsSome ref arms v
    | "oneOf", .array arms => FitsOne ref arms v
    | "properties", .object properties =>
      ∀ members, v = .object members → FitsProperties ref properties members
    | "additionalProperties", extra =>
      ∀ members, v = .object members → ∀ m ∈ members, m.1 ∉ declared → Fits ref extra m.2
    | _, _ => Asserts ref keyword argument v) ∧ FitsKeywords ref declared rest v

/-- A value meets one of several schemas at least. -/
def FitsSome (ref : Reading) : List Json → Json → Prop
  | [], _ => False
  | arm :: rest, v => Fits ref arm v ∨ FitsSome ref rest v

/-- A value meets exactly one of several schemas. -/
def FitsOne (ref : Reading) : List Json → Json → Prop
  | [], _ => False
  | arm :: rest, v =>
    (Fits ref arm v ∧ ¬ FitsSome ref rest v) ∨ (¬ Fits ref arm v ∧ FitsOne ref rest v)

/-- The members of an object meet the schemas under their names. -/
def FitsProperties (ref : Reading) : List (String × Json) → Table Json → Prop
  | [], _ => True
  | (name, schema) :: rest, members =>
    (∀ u, members.find? name = some u → Fits ref schema u) ∧ FitsProperties ref rest members

end

variable {ref : Reading} {v : Json}

/-! ## Several schemas -/

theorem fitsSome_iff {arms : List Json} : FitsSome ref arms v ↔ ∃ arm ∈ arms, Fits ref arm v := by
  induction arms with
  | nil => simp [FitsSome]
  | cons arm rest ih => rw [FitsSome, ih, List.exists_mem_cons_iff]

theorem fitsProperties_iff {properties : List (String × Json)} {members : Table Json} :
    FitsProperties ref properties members ↔
      ∀ p ∈ properties, ∀ u, members.find? p.1 = some u → Fits ref p.2 u := by
  induction properties with
  | nil => simp [FitsProperties]
  | cons p rest ih =>
      obtain ⟨name, schema⟩ := p
      rw [FitsProperties, ih, List.forall_mem_cons]

/-! ## The schemas of a document -/

namespace Schema

theorem typeName_eq_array_iff : v.typeName = "array" ↔ ∃ items, v = .array items := by
  cases v with
  | atom a => exact a.elim
  | _ => simp [Json.typeName]

theorem typeName_eq_object_iff : v.typeName = "object" ↔ ∃ members, v = .object members := by
  cases v with
  | atom a => exact a.elim
  | _ => simp [Json.typeName]

/-- A word is given by `const`, and several by `enum`. -/
theorem fits_literalKeywords_iff {words : List String} :
    Fits ref (literalKeywords words) v ↔ ∃ s ∈ words, v = .string s := by
  rw [literalKeywords.eq_def]
  split
  · simp [jsonObject, Fits, FitsKeywords, Asserts]
  · simp [jsonObject, Fits, FitsKeywords, Asserts, eq_comm]

theorem fits_arrayKeywords_iff {element : Json} :
    Fits ref (jsonObject [("type", .string "array"), ("items", element)]) v ↔
      ∃ items, v = .array items ∧ ∀ u ∈ items, Fits ref element u := by
  have hkeywords : Fits ref (jsonObject [("type", .string "array"), ("items", element)]) v ↔
      v.typeName = "array" ∧ ∀ items, v = .array items → ∀ u ∈ items, Fits ref element u := by
    simp [jsonObject, Fits, FitsKeywords, Asserts]
  rw [hkeywords, typeName_eq_array_iff]
  constructor
  · rintro ⟨⟨items, rfl⟩, h⟩
    exact ⟨items, rfl, h items rfl⟩
  · rintro ⟨items, rfl, h⟩
    exact ⟨⟨items, rfl⟩, by rintro _ ⟨⟩; exact h⟩

/-- A single arm stands for itself, and of several one has to fit. -/
theorem fits_unionKeywords_iff {arms : List Json} :
    Fits ref (unionKeywords arms) v ↔ ∃ arm ∈ arms, Fits ref arm v := by
  rw [unionKeywords.eq_def]
  split
  · simp
  · simp [jsonObject, Fits, FitsKeywords, fitsSome_iff]

theorem fits_reference_iff {name : String} :
    Fits ref (reference name).keywords v ↔ ref (address name) v := by
  simp [keywords, jsonObject, Fits, FitsKeywords, Asserts]

/-- An object has the names that it must have, and what its members are follows from their names. -/
theorem fits_objectKeywords_iff {required : List String} {properties : List (String × Json)}
    {additional : Json} (hnames : (Table.keys properties).Nodup) :
    Fits ref (objectKeywords required properties additional) v ↔
      ∃ members, v = .object members ∧ (∀ name ∈ required, name ∈ Table.keys members) ∧
        (∀ p ∈ properties, ∀ u, Table.find? members p.1 = some u → Fits ref p.2 u) ∧
        ∀ m ∈ members, m.1 ∉ Table.keys properties → Fits ref additional m.2 := by
  have hproperties : Table.ofList properties = properties := Table.ofList_of_nodup hnames
  have hkeywords : Fits ref (objectKeywords required properties additional) v ↔
      v.typeName = "object" ∧
        (∀ members, v = .object members →
          ∀ p ∈ properties, ∀ u, Table.find? members p.1 = some u → Fits ref p.2 u) ∧
        (∀ members, v = .object members →
          ∀ m ∈ members, m.1 ∉ Table.keys properties → Fits ref additional m.2) ∧
        ∀ members, v = .object members → ∀ name ∈ required, name ∈ Table.keys members := by
    rw [objectKeywords, hproperties]
    cases required with
    | nil =>
      simp [jsonObject, Fits, FitsKeywords, Asserts, declaredNames, Table.find?,
        fitsProperties_iff]
    | cons name rest =>
      simp [jsonObject, Fits, FitsKeywords, Asserts, declaredNames, Table.find?,
        fitsProperties_iff]
  rw [hkeywords, typeName_eq_object_iff]
  constructor
  · rintro ⟨⟨members, rfl⟩, hdeclared, hother, hrequired⟩
    exact ⟨members, rfl, hrequired members rfl, hdeclared members rfl, hother members rfl⟩
  · rintro ⟨members, rfl, hrequired, hdeclared, hother⟩
    refine ⟨⟨members, rfl⟩, ?_, ?_, ?_⟩
    all_goals
      rintro _ ⟨⟩
      assumption

end Schema

end Agenda
