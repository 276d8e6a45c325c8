/-
What holds of every schema in the bundled registry.

The general statements about conversion ask for conditions on a registry. For the bundled one each
of them is decided by going through its schemas: no object has room for members that it does not
declare, every union leaves the choice between absence and a timestamp, `absent` stands nowhere
else, and every name stands for a schema that says what a value looks like.
-/
import Agenda.Proofs.Conversion.Opposite
import Agenda.Proofs.Document.Agreement
import Agenda.Proofs.Schema.Exported
import Agenda.Proofs.Schema.Parts

set_option autoImplicit false

namespace Agenda

namespace Schema

/-- A schema that is no object, or one without room for further members. -/
def refusesSurplus : Schema → Bool
  | object _ (some _) => false
  | _ => true

/-- A schema that is no union, or the choice between absence and a timestamp. -/
def choosesInstant : Schema → Bool
  | union [kind .absent, kind .timestamp] => true
  | union _ => false
  | _ => true

/-- The schema of absence. -/
def isAbsent : Schema → Bool
  | kind .absent => true
  | _ => false

/-- A schema in which absence stands right inside no array and no object. -/
def keepsAbsence : Schema → Bool
  | union _ => true
  | s => s.children.all fun c => !c.isAbsent

/-- A schema that says what a value looks like, and is neither `any` nor `absent`. -/
def showsShape : Schema → Bool
  | kind .any => false
  | kind .absent => false
  | union _ => false
  | reference _ => false
  | _ => true

theorem ne_absent_of_isAbsent {s : Schema} (h : (!s.isAbsent) = true) : s ≠ kind .absent := by
  rintro rfl
  cases h

theorem not_reaches_of_showsShape {r : Registry} {s : Schema} (h : s.showsShape = true) :
    ¬ r.Reaches .any s ∧ ¬ r.Reaches .absent s := by
  refine ⟨fun hreaches => ?_, fun hreaches => ?_⟩ <;> cases hreaches <;> cases h

end Schema

namespace Document

theorem additional_eq_none {properties : List (Property Schema)} {additional : Option Schema}
    (h : registry.Part (.object properties additional)) : additional = none := by
  have hall : registry.parts.all Schema.refusesSurplus = true := by decide +kernel
  have hnone := h.of_all hall
  cases additional with
  | none => rfl
  | some extra => cases hnone

/-- Surplus members cannot take declared names. -/
theorem keepsNames_registry : registry.KeepsNames :=
  fun _ _ h => .inl (additional_eq_none h)

theorem candidates_eq {candidates : List Schema} (h : registry.Part (.union candidates)) :
    candidates = [.kind .absent, .kind .timestamp] := by
  have hall : registry.parts.all Schema.choosesInstant = true := by decide +kernel
  have hchoice := h.of_all hall
  rw [Schema.choosesInstant.eq_def] at hchoice
  split at hchoice
  · rename_i heq
    exact Schema.union.inj heq
  · cases hchoice
  · rename_i hne
    exact absurd rfl (hne candidates)

/-- No two candidates of a union accept the same shape. -/
theorem separable_registry : registry.Separable := by
  intro candidates hpart
  rw [candidates_eq hpart]
  refine List.pairwise_pair.2 fun shape h => ?_
  have habsent := Engine.mayAccept_of_accepts acyclic_registry h.1
  have htimestamp := Engine.mayAccept_of_accepts acyclic_registry h.2
  cases habsent with
  | kind habsent =>
      cases htimestamp with
      | kind htimestamp =>
          simp only [Engine.kindShapes, List.mem_cons, List.not_mem_nil, or_false]
            at habsent htimestamp
          subst habsent
          simp at htimestamp

/-- Absence stands in unions only. -/
theorem absentInUnions_registry : registry.AbsentInUnions := by
  have hnamed : registry.schemas.all (fun p => !p.2.isAbsent) = true := by decide +kernel
  have hall : registry.parts.all Schema.keepsAbsence = true := by decide +kernel
  refine ⟨fun name hname => ?_, fun h => ?_, fun {properties additional} h {p} hp => ?_,
    fun {_} h => ?_⟩
  · exact Schema.ne_absent_of_isAbsent
      (List.all_eq_true.1 hnamed _ (Table.mem_of_find? hname)) rfl
  · cases h.of_all hall
  · have hchildren : (Schema.object properties additional).children.all (fun c => !c.isAbsent) =
        true := h.of_all hall
    have hmem : p.schema ∈ (Schema.object properties additional).children :=
      List.mem_append_left _ (List.mem_map.2 ⟨p, hp, rfl⟩)
    exact Schema.ne_absent_of_isAbsent (List.all_eq_true.1 hchildren _ hmem)
  · cases additional_eq_none h

/-- No name stands for what may be missing. -/
theorem showsOptional_registry : registry.ShowsOptional := by
  have hall : registry.schemas.all (fun p => p.2.showsShape) = true := by decide +kernel
  intro properties additional _ p _ name _
  have hname : ∀ s, registry.find? name = some s → s.showsShape = true := fun s hs =>
    List.all_eq_true.1 hall _ (Table.mem_of_find? hs)
  simp only [Registry.reaches_reference_iff, not_exists, not_and]
  exact ⟨fun s hs => (Schema.not_reaches_of_showsShape (hname s hs)).1,
    fun s hs => (Schema.not_reaches_of_showsShape (hname s hs)).2⟩

/-- The exported document of the bundled registry says exactly which values are documents. -/
theorem registry_exists_cast_eq_ok_iff_fits :
    ∃ document, registry.jsonSchema? root = some document ∧
      (∃! ref : Reading, ref.Resolves document) ∧
      ∀ ref : Reading, ref.Resolves document →
        ∀ v : Json, (∃ d, Engine.cast registry root v.lift = .ok d) ↔ Fits ref document v :=
  exists_cast_eq_ok_iff_fits issues_registry acyclic_registry absentInUnions_registry
    showsOptional_registry (by decide +kernel)

end Document

end Agenda
