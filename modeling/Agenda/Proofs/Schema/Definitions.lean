/-
Where the definitions in a document stand.

The document of a registry nests definitions as the registry nests schemas, with two exceptions:
absence is no candidate of a union there, and a candidate that is left alone stands for its union,
at the same place. Every schema in a registry but an absence has its definition somewhere.
-/
import Agenda.Proofs.Conversion.Places
import Agenda.Proofs.Schema.Exported

set_option autoImplicit false

namespace Agenda

/-! ## Going on along a path -/

namespace Value

variable {α : Type}

theorem at?_append (v : Value α) (path rest : Path) :
    v.at? (path ++ rest) = (v.at? path).bind fun u => u.at? rest := by
  induction path generalizing v with
  | nil => simp [at?]
  | cons step path ih => simp only [List.cons_append, at?, Option.bind_assoc, ih]

theorem at?_append_of_eq_some {v u : Value α} {path : Path} (h : v.at? path = some u)
    (rest : Path) : v.at? (path ++ rest) = u.at? rest := by
  rw [at?_append, h, Option.bind_some]

end Value

/-! ## The definition of a union -/

namespace Schema

/-- A candidate that is left alone stands for its union. -/
theorem keywords_union_of_single {candidates : List Schema} {c : Schema}
    (h : arms candidates = [c]) : (union candidates).keywords = c.keywords := by
  rw [keywords, armKeywords_eq_map, h]
  rfl

theorem keywords_union_of_several {candidates : List Schema} (h : (arms candidates).length ≠ 1) :
    (union candidates).keywords =
      jsonObject [("anyOf", .array ((arms candidates).map keywords))] := by
  rw [keywords, armKeywords_eq_map, unionKeywords]
  intro arm hsingle
  have hlength := congrArg List.length hsingle
  rw [List.length_map] at hlength
  exact h hlength

end Schema

/-! ## Places of definitions -/

namespace Registry

variable {r : Registry} {root : String} {document : Json} {path : Path} {s : Schema}

/-- A path through the document of a registry leads to where the definition of a schema stands. -/
inductive DefinedAt (r : Registry) : Path → Schema → Prop where
  | registered {name : String} {s : Schema} (h : r.find? name = some s) :
      DefinedAt r [.key "$defs", .key name] s
  | element {path : Path} {s : Schema} (h : DefinedAt r path (.array s)) :
      DefinedAt r (path ++ [.key "items"]) s
  | single {path : Path} {candidates : List Schema} {s : Schema}
      (h : DefinedAt r path (.union candidates)) (hs : Schema.arms candidates = [s]) :
      DefinedAt r path s
  | arm {path : Path} {candidates : List Schema} {s : Schema} {i : Nat}
      (h : DefinedAt r path (.union candidates)) (hseveral : (Schema.arms candidates).length ≠ 1)
      (hs : (Schema.arms candidates)[i]? = some s) :
      DefinedAt r (path ++ [.key "anyOf", .index i]) s
  | property {path : Path} {properties : List (Property Schema)} {additional : Option Schema}
      {p : Property Schema} (h : DefinedAt r path (.object properties additional))
      (hp : p ∈ properties) :
      DefinedAt r (path ++ [.key "properties", .key p.wireName]) p.schema
  | additional {path : Path} {properties : List (Property Schema)} {s : Schema}
      (h : DefinedAt r path (.object properties (some s))) :
      DefinedAt r (path ++ [.key "additionalProperties"]) s

/-- What has a definition is a schema in the registry. -/
theorem DefinedAt.part (h : r.DefinedAt path s) : r.Part s := by
  induction h with
  | registered h => exact .registered h
  | element _ ih => exact ih.element
  | single _ hs ih => exact ih.candidate (Schema.mem_arms_iff.1 (hs ▸ List.mem_singleton_self _)).1
  | arm _ _ hs ih => exact ih.candidate (Schema.mem_arms_iff.1 (List.mem_of_getElem? hs)).1
  | property _ hp ih => exact ih.property hp
  | additional _ ih => exact ih.additional

/-- Every schema in a registry has a definition, an absence excepted. -/
theorem Part.exists_definedAt (h : r.Part s) (hs : s ≠ .kind .absent) :
    ∃ path, r.DefinedAt path s := by
  induction h with
  | registered h => exact ⟨_, .registered h⟩
  | element _ ih =>
      obtain ⟨path, h⟩ := ih (by simp)
      exact ⟨_, h.element⟩
  | @candidate candidates c _ hc ih =>
      obtain ⟨path, h⟩ := ih (by simp)
      obtain ⟨i, hi⟩ := List.getElem?_of_mem (Schema.mem_arms_iff.2 ⟨hc, hs⟩)
      by_cases hlength : (Schema.arms candidates).length = 1
      · obtain ⟨d, hd⟩ := List.length_eq_one_iff.1 hlength
        obtain rfl : c = d := by
          rw [← List.mem_singleton, ← hd]
          exact Schema.mem_arms_iff.2 ⟨hc, hs⟩
        exact ⟨_, h.single hd⟩
      · exact ⟨_, h.arm hlength hi⟩
  | property _ hp ih =>
      obtain ⟨path, h⟩ := ih (by simp)
      exact ⟨_, h.property hp⟩
  | additional _ ih =>
      obtain ⟨path, h⟩ := ih (by simp)
      exact ⟨_, h.additional⟩

end Registry

namespace Schema

variable {properties : List (Property Schema)} {additional : Option Schema}

/-- In the definition of an object, that of a property stands under its wire name. -/
theorem at?_property (hnames : (properties.map Property.wireName).Nodup) {p : Property Schema}
    (hp : p ∈ properties) :
    (object properties additional).keywords.at? [.key "properties", .key p.wireName] =
      some p.schema.keywords := by
  have hnodup : (Table.keys (propertyKeywords properties)).Nodup := by
    rwa [keys_propertyKeywords]
  have hfound := Table.find?_of_mem hnodup (mem_propertyKeywords hp)
  rw [keywords_object, objectKeywords, jsonObject, Value.at?_key rfl,
    Table.ofList_of_nodup hnodup, Value.at?_key hfound, Value.at?]

theorem at?_additional (extra : Schema) :
    (object properties (some extra)).keywords.at? [.key "additionalProperties"] =
      some extra.keywords := by
  rw [keywords_object, objectKeywords, jsonObject, Value.at?_key rfl]
  rfl

end Schema

namespace Registry

variable {r : Registry} {root : String} {document : Json} {path : Path} {s : Schema}

/-- A registered schema has its definition under its name. -/
theorem at?_registered (hdocument : r.jsonSchema? root = some document) {name : String}
    (h : r.find? name = some s) :
    document.at? [.key "$defs", .key name] = some s.keywords := by
  obtain ⟨-, rfl⟩ := jsonSchema?_eq_some_iff.1 hdocument
  have hfound : Table.find? (r.schemas.map fun p => (p.1, p.2.keywords)) name =
      some s.keywords := by
    rw [Table.find?_map, ← find?, h, Option.map_some]
  rw [Value.at?_key rfl, Value.at?_key hfound, Value.at?]

/-- The definition of a schema stands there in every document of the registry. -/
theorem DefinedAt.at?_jsonSchema (hsound : r.Sound) (hdocument : r.jsonSchema? root = some document)
    (h : r.DefinedAt path s) : document.at? path = some s.keywords := by
  induction h with
  | registered h => exact at?_registered hdocument h
  | element _ ih =>
      rw [Value.at?_append_of_eq_some ih]
      rfl
  | single _ hs ih => rw [ih, Schema.keywords_union_of_single hs]
  | @arm path candidates s i _ hseveral hs ih =>
      have hitem : ((Schema.arms candidates).map Schema.keywords)[i]? = some s.keywords := by
        rw [List.getElem?_map, hs, Option.map_some]
      rw [Value.at?_append_of_eq_some ih, Schema.keywords_union_of_several hseveral,
        Schema.jsonObject, Value.at?_key rfl, Value.at?_index hitem, Value.at?]
  | property h hp ih =>
      rw [Value.at?_append_of_eq_some ih, Schema.at?_property (hsound.wireNames h.part) hp]
  | additional _ ih => rw [Value.at?_append_of_eq_some ih, Schema.at?_additional]

end Registry

end Agenda
