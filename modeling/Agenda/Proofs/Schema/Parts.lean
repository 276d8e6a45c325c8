/-
The schemas in a registry, listed.

What has to hold of every schema in a registry is stated for its parts, a closure. A registry has
finitely many of them, and here they stand in a list. So a condition that can be decided for a
single schema is decided for a given registry by going through the list.
-/
import Agenda.Proofs.Schema.Sound

set_option autoImplicit false

namespace Agenda

namespace Schema

/-- The schemas right inside a schema. -/
def children : Schema → List Schema
  | array element => [element]
  | union candidates => candidates
  | object properties additional => properties.map Property.schema ++ additional.toList
  | _ => []

mutual

/-- A schema and all that stand inside it. -/
def parts : Schema → List Schema
  | kind k => [kind k]
  | literals words distinct => [literals words distinct]
  | array element => array element :: element.parts
  | union candidates => union candidates :: partsOfAll candidates
  | object properties none => object properties none :: partsOfProperties properties
  | object properties (some extra) =>
    object properties (some extra) :: (partsOfProperties properties ++ extra.parts)
  | reference name => [reference name]

/-- The parts of several schemas. -/
def partsOfAll : List Schema → List Schema
  | [] => []
  | s :: rest => s.parts ++ partsOfAll rest

/-- The parts of the schemas of properties. -/
def partsOfProperties : List (Property Schema) → List Schema
  | [] => []
  | p :: rest => p.schema.parts ++ partsOfProperties rest

end

theorem mem_partsOfAll {candidates : List Schema} {t : Schema} :
    t ∈ partsOfAll candidates ↔ ∃ c ∈ candidates, t ∈ c.parts := by
  induction candidates with
  | nil => simp [partsOfAll]
  | cons c rest ih => rw [partsOfAll, List.mem_append, ih, List.exists_mem_cons_iff]

theorem mem_partsOfProperties {properties : List (Property Schema)} {t : Schema} :
    t ∈ partsOfProperties properties ↔ ∃ p ∈ properties, t ∈ p.schema.parts := by
  induction properties with
  | nil => simp [partsOfProperties]
  | cons p rest ih => rw [partsOfProperties, List.mem_append, ih, List.exists_mem_cons_iff]

/-- A part is the schema itself, or a part of one right inside it. -/
theorem mem_parts_iff {s t : Schema} : t ∈ s.parts ↔ t = s ∨ ∃ c ∈ s.children, t ∈ c.parts := by
  cases s with
  | kind k => simp [parts, children]
  | literals words distinct => simp [parts, children]
  | array element => simp [parts, children]
  | union candidates => rw [parts, children, List.mem_cons, mem_partsOfAll]
  | object properties additional =>
      cases additional with
      | none => simp [parts, children, mem_partsOfProperties]
      | some extra =>
          simp [parts, children, mem_partsOfProperties, or_and_right, exists_or]
  | reference name => simp [parts, children]

/-- What holds of a schema if it holds of those right inside it holds of every schema. -/
theorem children_induction {motive : Schema → Prop}
    (step : ∀ s, (∀ c ∈ s.children, motive c) → motive s) (s : Schema) : motive s := by
  induction s with
  | kind k => exact step _ (by simp [children])
  | literals words distinct => exact step _ (by simp [children])
  | array element ih => exact step _ (by simpa [children] using ih)
  | union candidates ih => exact step _ ih
  | object properties additional ihp iha =>
      refine step _ fun c hc => ?_
      rcases List.mem_append.1 hc with hc | hc
      · obtain ⟨p, hp, rfl⟩ := List.mem_map.1 hc
        exact ihp p hp
      · exact iha c (Option.mem_toList.1 hc)
  | reference name => exact step _ (by simp [children])

/-- What stands right inside a part is a part. -/
theorem mem_parts_of_mem_children {s t c : Schema} (ht : t ∈ s.parts) (hc : c ∈ t.children) :
    c ∈ s.parts := by
  induction s using children_induction with
  | step s ih =>
      rcases mem_parts_iff.1 ht with rfl | ⟨u, hu, ht⟩
      · exact mem_parts_iff.2 (.inr ⟨c, hc, mem_parts_iff.2 (.inl rfl)⟩)
      · exact mem_parts_iff.2 (.inr ⟨u, hu, ih u hu ht⟩)

end Schema

namespace Registry

/-- The schemas that stand in a registry. -/
def parts (r : Registry) : List Schema := r.schemas.flatMap fun p => p.2.parts

/-- They are all in the list. -/
theorem Part.mem_parts {r : Registry} {s : Schema} (h : r.Part s) : s ∈ r.parts := by
  -- a schema right inside one that is listed is listed with it
  have hinside : ∀ {t c : Schema}, t ∈ r.parts → c ∈ t.children → c ∈ r.parts := by
    intro t c ht hc
    obtain ⟨p, hp, ht⟩ := List.mem_flatMap.1 ht
    exact List.mem_flatMap.2 ⟨p, hp, Schema.mem_parts_of_mem_children ht hc⟩
  induction h with
  | registered h =>
      exact List.mem_flatMap.2 ⟨_, Table.mem_of_find? h, Schema.mem_parts_iff.2 (.inl rfl)⟩
  | element _ ih => exact hinside ih (List.mem_singleton.2 rfl)
  | candidate _ hs ih => exact hinside ih hs
  | property _ hp ih => exact hinside ih (List.mem_append_left _ (List.mem_map.2 ⟨_, hp, rfl⟩))
  | additional _ ih =>
      exact hinside ih (List.mem_append_right _ (Option.mem_toList.2 rfl))

/-- What stands right inside a part is a part. -/
theorem Part.child {r : Registry} {t s : Schema} (ht : r.Part t) (hs : s ∈ t.children) :
    r.Part s := by
  cases t with
  | kind k => cases hs
  | literals words distinct => cases hs
  | array element =>
      obtain rfl := List.mem_singleton.1 hs
      exact ht.element
  | union candidates => exact ht.candidate hs
  | object properties additional =>
      rcases List.mem_append.1 hs with hs | hs
      · obtain ⟨p, hp, rfl⟩ := List.mem_map.1 hs
        exact ht.property hp
      · obtain rfl := Option.mem_toList.1 hs
        exact ht.additional
  | reference name => cases hs

/-- What stands anywhere inside a part is a part. -/
theorem Part.of_mem_parts {r : Registry} {s t : Schema} (hs : r.Part s) (ht : t ∈ s.parts) :
    r.Part t := by
  induction s using Schema.children_induction with
  | step s ih =>
      rcases Schema.mem_parts_iff.1 ht with rfl | ⟨c, hc, ht⟩
      · exact hs
      · exact ih c hc (hs.child hc) ht

/-- A condition that is decided for each schema in the list holds of every part. -/
theorem Part.of_all {r : Registry} {p : Schema → Bool} (hall : r.parts.all p = true) {s : Schema}
    (h : r.Part s) : p s = true :=
  List.all_eq_true.1 hall s h.mem_parts

end Registry

end Agenda
