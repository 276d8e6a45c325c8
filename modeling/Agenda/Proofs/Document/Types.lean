/-
The types of the model.

A document is made of values of sixteen types, ten records and six enumerations. Each of them has a
form of its own and can be written and read by itself, without the engine. What a form writes of a
value is read back as that value: the exact text of an instant keeps all of it, in any year, with
every nanosecond and also in a leap second, and a free value comes back as it was.
-/
import Agenda.Proofs.Document.Agreement

set_option autoImplicit false

namespace Agenda

/-! ## Forms read what they write -/

/-- Forms read the exact text of an instant as the instant. -/
theorem readsInstants_exactText (ts : List Instant) : ReadsInstants exactText id ts := by
  intro t _
  constructor
  · rw [exactText, Form.read, Form.textOf?]
    show (Instant.ofText (String.ofList t.exact)).mapError _ = _
    rw [Instant.ofText_exact]
    rfl
  · intro hnull
    cases hnull

/-- A form that fits a schema reads what it has written. -/
theorem Fit.read_lift_write {r : Registry} {α : Type} {form : Form α} {s : Schema}
    (fit : Fit r form s) (a : α) : form.read (form.write a).lift = .ok a := by
  have hread := fit.read_render a (readsInstants_exactText (form.instants a))
  rw [fit.change_id] at hread
  rw [fit.lift_write]
  exact hread

/-! ## The types -/

/-- A type of the model. -/
inductive ModelType where
  | document
  | assignment
  | planItem
  | lessonGroup
  | schoolYear
  | subject
  | establishment
  | permission
  | link
  | additionalObjects
  | resourceType
  | relation
  | operation
  | schoolYearName
  | establishmentName
  | homeworkType
deriving DecidableEq

namespace ModelType

/-- The values of a type. -/
def Carrier : ModelType → Type
  | document => Document
  | assignment => Assignment
  | planItem => PlanItem
  | lessonGroup => LessonGroup
  | schoolYear => SchoolYear
  | subject => SchoolSubject
  | establishment => Establishment
  | permission => Permission
  | link => Link
  | additionalObjects => AdditionalObjects
  | resourceType => ResourceType
  | relation => Relation
  | operation => Operation
  | schoolYearName => SchoolYearName
  | establishmentName => EstablishmentName
  | homeworkType => HomeworkType

/-- How they are written and read. -/
def form : (m : ModelType) → Form m.Carrier
  | document => Document.form
  | assignment => Assignment.form
  | planItem => PlanItem.form
  | lessonGroup => LessonGroup.form
  | schoolYear => SchoolYear.form
  | subject => SchoolSubject.form
  | establishment => Establishment.form
  | permission => Permission.form
  | link => Link.form
  | additionalObjects => AdditionalObjects.form
  | resourceType => ResourceType.form
  | relation => Relation.form
  | operation => Operation.form
  | schoolYearName => SchoolYearName.form
  | establishmentName => EstablishmentName.form
  | homeworkType => HomeworkType.form

/-- The name that the registry has for a type. -/
def name : ModelType → String
  | document => Document.root
  | assignment => "Item"
  | planItem => "StudiewijzerItem"
  | lessonGroup => "Lesgroep"
  | schoolYear => "Schooljaar"
  | subject => "Vak"
  | establishment => "Vestiging"
  | permission => "Permission"
  | link => "Link"
  | additionalObjects => "AdditionalObjects"
  | resourceType => "Type"
  | relation => "Rel"
  | operation => "Operation"
  | schoolYearName => "SchooljaarNaam"
  | establishmentName => "VestigingNaam"
  | homeworkType => "HuiswerkType"

/-- The form of each type agrees with the schema of its name. -/
def fit : (m : ModelType) → Fit Document.registry m.form (.reference m.name)
  | document => Document.fit
  | assignment => Document.assignmentFit
  | planItem => Document.planItemFit
  | lessonGroup => Document.lessonGroupFit
  | schoolYear => Document.schoolYearFit
  | subject => Document.subjectFit
  | establishment => Document.establishmentFit
  | permission => Document.permissionFit
  | link => Document.linkFit
  | additionalObjects => Document.additionalObjectsFit
  | resourceType => Document.resourceTypeFit
  | relation => Document.relationFit
  | operation => Document.operationFit
  | schoolYearName => Document.schoolYearNameFit
  | establishmentName => Document.establishmentNameFit
  | homeworkType => Document.homeworkTypeFit

end ModelType

/-! ## Reading what was written -/

/-- Reading undoes writing, for documents and for each type that they are made of: whatever the
instants of a value are, and however deep its free values go, the JSON value that is written of it
is read back as the value, the engine taking no part. -/
theorem ModelType.read_written :
    (∀ w : Document, Document.ofData w.toJson.lift = .ok w) ∧
      ∀ (m : ModelType) (a : m.Carrier), m.form.read (m.form.write a).lift = .ok a := by
  have htypes : ∀ (m : ModelType) (a : m.Carrier), m.form.read (m.form.write a).lift = .ok a :=
    fun m a => m.fit.read_lift_write a
  refine ⟨fun w => ?_, htypes⟩
  have hread : Document.form.read (Document.form.write w).lift = .ok w := htypes .document w
  rw [Document.ofData, Document.toJson, hread, Result.mapError_ok]

end Agenda
