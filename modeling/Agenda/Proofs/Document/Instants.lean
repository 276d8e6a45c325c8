/-
The instants of a document.

Only school years and assignments hold instants. What the walk over a form finds in a value, and
what it makes of it when every instant is replaced, is therefore easy to say in terms of the model;
the other types of the model are left as they are.
-/
import Agenda.Document.Layout
import Agenda.Proofs.Document.Fit

set_option autoImplicit false

namespace Agenda

/-! ## In terms of the model -/

/-- The first and the last day of a school year, as far as they are known. -/
def SchoolYear.instants (y : SchoolYear) : List Instant := y.firstDay.toList ++ y.lastDay.toList

/-- The instants of an assignment: those of its school year, its date, and when it was made. -/
def Assignment.instants (a : Assignment) : List Instant :=
  a.lessonGroup.schoolYear.instants ++ a.date.toList ++ a.created.toList

/-- The instants of a document, in the order in which its text shows them. -/
def Document.instants (w : Document) : List Instant := w.items.flatMap Assignment.instants

section

variable (f : Instant → Instant)

/-- The school year with its instants replaced. -/
def SchoolYear.mapInstants (y : SchoolYear) : SchoolYear :=
  { y with firstDay := y.firstDay.map f, lastDay := y.lastDay.map f }

/-- The lesson group with the instants of its school year replaced. -/
def LessonGroup.mapInstants (g : LessonGroup) : LessonGroup :=
  { g with schoolYear := g.schoolYear.mapInstants f }

/-- The assignment with its instants replaced. -/
def Assignment.mapInstants (a : Assignment) : Assignment :=
  { a with
    lessonGroup := a.lessonGroup.mapInstants f
    date := a.date.map f
    created := a.created.map f }

/-- The document with its instants replaced. -/
def Document.mapInstants (w : Document) : Document := ⟨w.items.map (Assignment.mapInstants f)⟩

end

/-- The document with every instant cut to the millisecond. The texts of instants end there, so this
is the most that can be read back. -/
def Document.truncate (w : Document) : Document := w.mapInstants Instant.truncate

/-! ## What the forms find

The walk over a form looks into every field. Most forms have no place for an instant, and saying so
once for each of them is what keeps the walk over a document short. -/

/-- A word is no instant. This speaks for all the forms that are a choice of words. -/
@[simp] theorem instants_choice {α : Type} (name : String) (values : List α) (word : α → String) :
    (Form.choice name values word).instants = fun _ => [] := rfl

@[simp] theorem instants_link : Link.form.instants = fun _ => [] := rfl

@[simp] theorem instants_permission : Permission.form.instants = fun _ => [] := by
  funext p
  simp [Permission.form, Form.instants, Fields.instants, Operation.form, ResourceType.form]

/-- The fields that open a resource hold no instants. Six forms begin with them, so this is said
about the fields and not about each of the forms. -/
@[simp] theorem instants_resource {ρ : Type} (own : Fields ρ) (links : List Link)
    (permissions : List Permission) (additionalObjects : AdditionalObjects) (r : ρ) :
    (Fields.resource own).instants (links, permissions, additionalObjects, r) =
      own.instants r := by
  have hlinks : (Form.list Link.form).instants links = [] := by simp [Form.instants]
  have hpermissions : (Form.list Permission.form).instants permissions = [] := by
    simp [Form.instants]
  rw [Fields.resource, Fields.instants, Fields.instants, Fields.instants, hlinks, hpermissions]
  rfl

@[simp] theorem instants_planItem (i : PlanItem) : PlanItem.form.instants i = [] := by
  simp [PlanItem.form, Form.instants, Fields.instants, HomeworkType.form]

@[simp] theorem instants_subject (s : SchoolSubject) : SchoolSubject.form.instants s = [] := by
  simp [SchoolSubject.form, Form.instants, Fields.instants]

@[simp] theorem instants_establishment (e : Establishment) :
    Establishment.form.instants e = [] := by
  simp [Establishment.form, Form.instants, Fields.instants, EstablishmentName.form]

/-- The first of the two types that hold instants of their own: both days may be missing, and then
there is nothing to find. -/
@[simp] theorem instants_schoolYear (y : SchoolYear) : SchoolYear.form.instants y = y.instants := by
  simp [SchoolYear.form, Form.instants, Fields.instants, ResourceType.form, SchoolYearName.form,
    SchoolYear.instants]

/-- Beside its school year a lesson group has a subject and an establishment, which hold none. -/
@[simp] theorem instants_lessonGroup (g : LessonGroup) :
    LessonGroup.form.instants g = g.schoolYear.instants := by
  simp [LessonGroup.form, Form.instants, Fields.instants]

/-- The instants of an assignment come in the order of its fields: those of the lesson group, which
is written first, then its own. -/
theorem instants_assignment (a : Assignment) : Assignment.form.instants a = a.instants := by
  simp [Assignment.form, Form.instants, Fields.instants, ResourceType.form, Assignment.instants]

/-- The form of documents finds the instants of a document. What is proved about the walk, for all
forms at once, is by this about the model. -/
theorem instants_document (w : Document) : Document.form.instants w = w.instants := by
  rw [Document.form, Form.instants, Fields.instants, Fields.instants, List.append_nil,
    Form.instants, Document.instants]
  -- a document is nothing but its items, so the two lists agree item by item
  exact List.flatMap_congr fun a _ => instants_assignment a

/-! ## What they change

The same walk can replace instants on its way. A form without instants changes nothing, and the rest
follow the structure of the model. -/

section

variable (f : Instant → Instant)

@[simp] theorem change_choice {α : Type} (name : String) (values : List α) (word : α → String) :
    (Form.choice name values word).change f id = id := rfl

@[simp] theorem change_link : Link.form.change f id = id := rfl

@[simp] theorem change_permission : Permission.form.change f id = id := by
  funext p
  simp [Permission.form, Form.change, Fields.change, Operation.form, ResourceType.form]

@[simp] theorem change_planItem : PlanItem.form.change f id = id := by
  funext i
  simp [PlanItem.form, Form.change, Fields.change, Fields.resource, HomeworkType.form]

@[simp] theorem change_subject : SchoolSubject.form.change f id = id := by
  funext s
  simp [SchoolSubject.form, Form.change, Fields.change, Fields.resource]

@[simp] theorem change_establishment : Establishment.form.change f id = id := by
  funext e
  simp [Establishment.form, Form.change, Fields.change, Fields.resource, EstablishmentName.form]

/-- A day that is missing stays missing, because only what the walk meets is replaced. -/
@[simp] theorem change_schoolYear : SchoolYear.form.change f id = SchoolYear.mapInstants f := by
  funext y
  simp [SchoolYear.form, Form.change, Fields.change, Fields.resource, ResourceType.form,
    SchoolYearName.form, SchoolYear.mapInstants]

@[simp] theorem change_lessonGroup : LessonGroup.form.change f id = LessonGroup.mapInstants f := by
  funext g
  simp [LessonGroup.form, Form.change, Fields.change, Fields.resource, LessonGroup.mapInstants]

/-- The instants of an assignment are replaced, and everything else of it is as it was: the topic,
the links and the numbers by which it is ordered. -/
@[simp] theorem change_assignment : Assignment.form.change f id = Assignment.mapInstants f := by
  funext a
  simp [Assignment.form, Form.change, Fields.change, Fields.resource, ResourceType.form,
    Assignment.mapInstants]

/-- The form of documents replaces the instants of a document. With the cut to milliseconds for `f`
this says which document is read back from what has been written. -/
theorem change_document : Document.form.change f id = Document.mapInstants f := by
  funext w
  simp [Document.form, Form.change, Fields.change, Document.mapInstants]

end

end Agenda
