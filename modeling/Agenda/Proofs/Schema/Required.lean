/-
Keys that a definition asks for.

Whether a key may be missing is decided twice. The engine converts an absent value by the schema of
the property, and follows references as it does so. The document lists a key as required unless its
schema is optional by itself. The two agree as long as an absent value is not let through by a
reference alone; a shared optional schema is, and then the document asks for a key that the engine
does not miss.
-/
import Agenda.Proofs.Schema.Definitions

set_option autoImplicit false

namespace Agenda

/-- A definition lists a key as required. -/
def Value.Requires {α : Type} (definition : Value α) (key : String) : Prop :=
  ∃ names, definition.get? "required" = some (.array names) ∧ .string key ∈ names

namespace Schema

variable {properties : List (Property Schema)} {additional : Option Schema}

/-- The definition of an object lists the keys that are not optional. -/
theorem requires_keywords_iff {key : String} :
    (object properties additional).keywords.Requires key ↔ key ∈ requiredNames properties := by
  rw [keywords_object, objectKeywords, jsonObject, Value.Requires]
  cases requiredNames properties with
  | nil => simp [Value.get?, Table.find?]
  | cons name rest => simp [Value.get?, Table.find?, eq_comm]

/-- Of a property under a name of its own, its schema alone decides. -/
theorem requires_wireName_iff (hnames : (properties.map Property.wireName).Nodup)
    {p : Property Schema} (hp : p ∈ properties) :
    (object properties additional).keywords.Requires p.wireName ↔
      ¬ p.schema.isOptional = true := by
  rw [requires_keywords_iff, mem_requiredNames_iff]
  constructor
  · rintro ⟨q, hq, hrequired, hname⟩
    obtain rfl : q = p := List.inj_on_of_nodup_map hnames hq hp hname
    exact hrequired
  · exact fun hrequired => ⟨p, hp, hrequired, rfl⟩

end Schema

namespace Engine

variable {r : Registry} {d : Direction} {x : Option Data} {site : Site} {s : Schema}

/-- A conversion fails exactly on what the schema does not take, wherever it stands. -/
theorem exists_eq_error_iff (hacyclic : r.Acyclic) (hsound : r.Sound) (hs : r.Part s) :
    (∃ e, convert r d x site s = .error e) ↔ ¬ Takes r d x s := by
  rw [← exists_eq_ok_iff hacyclic hsound hs, ← convert_eq_convertUnder]
  cases convert r d x site s <;> simp

/-- A missing key is let through by a schema that is optional, or by one of the references in it. -/
theorem takes_none_iff_isOptional (hacyclic : r.Acyclic) (hsound : r.Sound) (hs : r.Part s) :
    Takes r d none s ↔
      s.isOptional = true ∨ ∃ name ∈ s.exposed, Takes r d none (.reference name) := by
  rw [takes_none_iff hacyclic hsound hs, Schema.reaches_iff_isOptional]
  refine or_congr_right (exists_congr fun name => and_congr_right fun hname => ?_)
  exact (takes_none_iff hacyclic hsound (hs.of_mem_exposed hname)).symm

end Engine

open Engine

variable {r : Registry} {root : String} {document : Json}

/-- The document asks for every key that the engine misses, and for no other one exactly if no
reference lets an absent value through where the schema itself is not optional. -/
theorem Registry.required_iff (hissues : r.issues = []) (hacyclic : r.Acyclic)
    (hdocument : r.jsonSchema? root = some document)
    {properties : List (Property Schema)} {additional : Option Schema}
    (hs : r.Part (.object properties additional)) :
    (∃ path, r.DefinedAt path (.object properties additional)) ∧
      ∀ path, r.DefinedAt path (.object properties additional) →
        ∃ definition, document.at? path = some definition ∧ ∀ p ∈ properties, ∀ site,
          ((∃ e, convert r .toInternal none site p.schema = .error e) →
            definition.Requires p.wireName) ∧
          ((definition.Requires p.wireName ↔
              ∃ e, convert r .toInternal none site p.schema = .error e) ↔
            p.schema.isOptional = true ∨ ∀ name ∈ p.schema.exposed,
              ∃ e, convert r .toInternal none site (.reference name) = .error e) := by
  have hsound := sound_of_issues_eq_nil hissues
  refine ⟨hs.exists_definedAt (by simp), fun path hpath => ?_⟩
  refine ⟨_, hpath.at?_jsonSchema hsound hdocument, fun p hp site => ?_⟩
  have hpart := hs.property hp
  have hreference : (∀ name ∈ p.schema.exposed,
      ∃ e, convert r .toInternal none site (.reference name) = .error e) ↔
      ¬ ∃ name ∈ p.schema.exposed, Takes r .toInternal none (.reference name) := by
    rw [not_exists]
    refine forall_congr' fun name => ?_
    rw [not_and]
    apply forall_congr'
    intro hname
    exact exists_eq_error_iff hacyclic hsound (hpart.of_mem_exposed hname)
  rw [Schema.requires_wireName_iff (hsound.wireNames hs) hp, hreference,
    exists_eq_error_iff hacyclic hsound hpart, takes_none_iff_isOptional hacyclic hsound hpart,
    not_or]
  exact ⟨And.left, by tauto⟩

namespace Registry

/-- The properties of a lesson: a room, which may be null, a note, which may be missing, and a
second room. -/
def lessonProperties : List (Property Schema) :=
  [⟨"room", "room", .reference "Room"⟩, ⟨"note", "note", .reference "Note"⟩,
    ⟨"second_room", "secondRoom", .optional (.reference "Room")⟩]

/-- Lessons, with rooms and notes described by schemas of their own. -/
def lessons : Registry :=
  ofList [("Room", .union [.kind .string, .kind .null]), ("Note", .optional (.kind .string)),
    ("Lesson", .object lessonProperties none)]

theorem lessons_acyclic : lessons.Acyclic := by
  have hexposed : ∀ p ∈ lessons.schemas, p.2.exposed = [] := by decide +kernel
  refine acyclic_of_rank (fun _ => 0) fun p hp name hname => ?_
  rw [hexposed p hp] at hname
  cases hname

/-- A room is asked for, and a second one is not. The schema of a room stands behind a name too, but
absence is not among its candidates, so nothing depends on whether the name is followed. -/
theorem lessons_room_required :
    ∃ document definition, lessons.jsonSchema? "Lesson" = some document ∧
      document.at? [.key "$defs", .key "Lesson"] = some definition ∧
      definition.Requires "room" ∧ ¬ definition.Requires "second_room" := by
  have hlesson : lessons.find? "Lesson" = some (.object lessonProperties none) := rfl
  obtain ⟨document, hdocument⟩ : ∃ document, lessons.jsonSchema? "Lesson" = some document :=
    ⟨_, rfl⟩
  obtain ⟨-, hplaces⟩ :=
    required_iff (by decide +kernel) lessons_acyclic hdocument (.registered hlesson)
  obtain ⟨definition, hdefinition, hrequired⟩ := hplaces _ (.registered hlesson)
  refine ⟨document, definition, hdocument, hdefinition, ?_, fun hsecond => ?_⟩
  · exact (hrequired ⟨"room", "room", .reference "Room"⟩ (by simp [lessonProperties]) .root).1
      ⟨_, rfl⟩
  · have hagree := (hrequired ⟨"second_room", "secondRoom", .optional (.reference "Room")⟩
      (by simp [lessonProperties]) .root).2.2 (.inl rfl)
    obtain ⟨e, he⟩ := hagree.1 hsecond
    cases he

/-- A note is asked for, although the engine does not miss one. Whether a property is optional is
read off its schema where it stands, and here it stands behind a name. -/
theorem lessons_note_required :
    lessons.issues = [] ∧ lessons.Acyclic ∧
      ∃ document definition, lessons.jsonSchema? "Lesson" = some document ∧
        document.at? [.key "$defs", .key "Lesson"] = some definition ∧
        definition.Requires "note" ∧
        ∀ site, convert lessons .toInternal none site (.reference "Note") = .ok none := by
  refine ⟨by decide +kernel, lessons_acyclic, _, _, rfl, rfl, ?_, fun _ => rfl⟩
  refine Schema.requires_keywords_iff.2 (Schema.mem_requiredNames_iff.2 ?_)
  exact ⟨⟨"note", "note", .reference "Note"⟩, by simp [lessonProperties], by decide, rfl⟩

end Registry

end Agenda
