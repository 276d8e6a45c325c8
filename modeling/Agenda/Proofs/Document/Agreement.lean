/-
The layout of documents agrees with the bundled registry.

Each type of the model has a form and each name of the registry has a schema, and they go together:
the agreement is built up along the types, one step for each field. What the recursion over
agreements says of the instants of a value is then put in terms of the model: the instants of a
document are those of its school years and assignments.
-/
import Agenda.Document.Text
import Agenda.Proofs.Document.Accepted

set_option autoImplicit false

namespace Agenda

namespace Document

/-! ## The registry -/

/-- Nothing is wrong with the bundled registry. -/
theorem issues_registry : registry.issues = [] := by decide +kernel

/-- Its references stand inside arrays and objects only. -/
theorem acyclic_registry : registry.Acyclic := by
  have hnone : registry.schemas.flatMap (fun p => p.2.exposed) = [] := by decide +kernel
  refine Registry.acyclic_of_rank (fun _ => 0) fun p hp name hname => ?_
  rw [List.flatMap_eq_nil_iff.1 hnone p hp] at hname
  cases hname

end Document

/-! ## Words -/

/-- A choice fits a set of words if they are the same. -/
def Fit.choice {r : Registry} {α : Type} {name : String} {values : List α} {word : α → String}
    {words : List String}
    (hspell : ∀ a, word a ∈ Schema.firstOccurrences words ∧
      Table.find? (values.map fun a => (word a, a)) (word a) = some a)
    (hwords : ∀ s ∈ Schema.firstOccurrences words, s ∈ values.map word) :
    Fit r (.choice name values word) (.oneOf words) :=
  .word word hspell fun s hs => by
    obtain ⟨a, -, ha⟩ := List.mem_map.1 (hwords s hs)
    exact ⟨a, ha⟩

namespace Document

/-- Kinds of resources. -/
def resourceTypeFit : Fit registry ResourceType.form (.reference "Type") :=
  .reference rfl <| .choice (by intro a; cases a <;> decide +kernel) (by decide +kernel)

/-- Relations. -/
def relationFit : Fit registry Relation.form (.reference "Rel") :=
  .reference rfl <| .choice (by intro a; cases a; decide +kernel) (by decide +kernel)

/-- Operations. -/
def operationFit : Fit registry Operation.form (.reference "Operation") :=
  .reference rfl <| .choice (by intro a; cases a; decide +kernel) (by decide +kernel)

/-- Names of school years. -/
def schoolYearNameFit : Fit registry SchoolYearName.form (.reference "SchooljaarNaam") :=
  .reference rfl <| .choice (by intro a; cases a; decide +kernel) (by decide +kernel)

/-- Names of establishments. -/
def establishmentNameFit : Fit registry EstablishmentName.form (.reference "VestigingNaam") :=
  .reference rfl <| .choice (by intro a; cases a; decide +kernel) (by decide +kernel)

/-- Kinds of homework. -/
def homeworkTypeFit : Fit registry HomeworkType.form (.reference "HuiswerkType") :=
  .reference rfl <| .choice (by intro a; cases a; decide +kernel) (by decide +kernel)

/-! ## Records -/

/-- Additional objects. -/
def additionalObjectsFit : Fit registry AdditionalObjects.form (.reference "AdditionalObjects") :=
  .reference rfl <| .record _ _ (fun _ => rfl) (fun _ => rfl) (by decide +kernel)
    (by decide +kernel) .nil

/-- Links. -/
def linkFit : Fit registry Link.form (.reference "Link") :=
  .reference rfl <| .record _ _ (fun _ => rfl) (fun _ => rfl) (by decide +kernel)
    (by decide +kernel) <|
    .required _ .number <| .required _ relationFit <| .required _ resourceTypeFit <|
      .required _ .text .nil

/-- Permissions. -/
def permissionFit : Fit registry Permission.form (.reference "Permission") :=
  .reference rfl <| .record _ _ (fun _ => rfl) (fun _ => rfl) (by decide +kernel)
    (by decide +kernel) <|
    .required _ .text <| .required _ resourceTypeFit <| .required _ (.list operationFit) <|
      .required _ (.list .text) .nil

/-- The fields that open a resource. -/
def resourceFit {ρ : Type} {fields : Fields ρ} {properties : List (Property Schema)}
    (fit : FieldsFit registry properties fields) :
    FieldsFit registry (resourceHeader ++ properties) (.resource fields) :=
  .required _ (.list linkFit) <| .required _ (.list permissionFit) <|
    .required _ additionalObjectsFit fit

/-- Establishments. -/
def establishmentFit : Fit registry Establishment.form (.reference "Vestiging") :=
  .reference rfl <| .record _ _ (fun _ => rfl) (fun _ => rfl) (by decide +kernel)
    (by decide +kernel) <| resourceFit <|
    .required _ establishmentNameFit <| .required _ .text .nil

/-- Subjects. -/
def subjectFit : Fit registry SchoolSubject.form (.reference "Vak") :=
  .reference rfl <| .record _ _ (fun _ => rfl) (fun _ => rfl) (by decide +kernel)
    (by decide +kernel) <| resourceFit <|
    .required _ .text <| .required _ .text <| .required _ .text .nil

/-- School years. -/
def schoolYearFit : Fit registry SchoolYear.form (.reference "Schooljaar") :=
  .reference rfl <| .record _ _ (fun _ => rfl) (fun _ => rfl) (by decide +kernel)
    (by decide +kernel) <| .required _ resourceTypeFit <| resourceFit <|
    .required _ schoolYearNameFit <| .nullable _ rfl <| .nullable _ rfl <| .required _ .flag .nil

/-- Lesson groups. -/
def lessonGroupFit : Fit registry LessonGroup.form (.reference "Lesgroep") :=
  .reference rfl <| .record _ _ (fun _ => rfl) (fun _ => rfl) (by decide +kernel)
    (by decide +kernel) <| resourceFit <|
    .required _ .text <| .required _ .text <| .required _ .text <| .required _ schoolYearFit <|
      .required _ subjectFit <| .required _ .flag <| .required _ .flag <|
      .required _ establishmentFit .nil

/-- Plan items. -/
def planItemFit : Fit registry PlanItem.form (.reference "StudiewijzerItem") :=
  .reference rfl <| .record _ _ (fun _ => rfl) (fun _ => rfl) (by decide +kernel)
    (by decide +kernel) <| resourceFit <|
    .required _ .text <| .required _ homeworkTypeFit <| .required _ .text <| .required _ .flag <|
      .required _ .flag <| .required _ .flag <| .required _ .anything <| .required _ .anything <|
      .required _ .anything <| .required _ .flag <| .required _ .flag <| .required _ .text .nil

/-- Assignments. -/
def assignmentFit : Fit registry Assignment.form (.reference "Item") :=
  .reference rfl <| .record _ _ (fun _ => rfl) (fun _ => rfl) (by decide +kernel)
    (by decide +kernel) <| .required _ resourceTypeFit <| resourceFit <|
    .required _ planItemFit <| .required _ .number <| .required _ lessonGroupFit <|
      .nullable _ rfl <| .omittable _ rfl .nil

/-- Documents. -/
def fit : Fit registry form (.reference root) :=
  .reference rfl <| .record _ _ (fun _ => rfl) (fun _ => rfl) (by decide +kernel)
    (by decide +kernel) <| .required _ (.list assignmentFit) .nil

end Document

end Agenda
