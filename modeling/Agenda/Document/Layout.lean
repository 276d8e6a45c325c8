/-
How the parts of a document are spelled: the forms of all its types.

Names of members are those that converted documents use, and each word of an enumeration is the one
that the service writes.
-/
import Agenda.Document.Form
import Agenda.Document.Model

set_option autoImplicit false

namespace Agenda

/-! ## Words -/

/-- The word for a kind of resource. -/
def ResourceType.word : ResourceType → String
  | establishment => "instelling.RVestiging"
  | lessonGroup => "lesgroep.RLesgroep"
  | schoolYear => "onderwijsinrichting.RSchooljaar"
  | subject => "onderwijsinrichting.RVak"
  | planAssignment => "studiewijzer.RSWIAfspraakToekenning"
  | planItem => "studiewijzer.RStudiewijzerItem"

/-- The form of values that are spelled by words. -/
def Form.choice {α : Type} (name : String) (values : List α) (word : α → String) : Form α :=
  .word name (values.map fun a => (word a, a)) word

/-- Kinds of resources are spelled as in the model. -/
def ResourceType.form : Form ResourceType :=
  .choice "Type"
    [establishment, lessonGroup, schoolYear, subject, planAssignment, planItem] word

/-- The only relation is that of a resource to itself. -/
def Relation.form : Form Relation := .choice "Rel" [itself] fun _ => "self"

/-- The only operation that is permitted is reading. -/
def Operation.form : Form Operation := .choice "Operation" [read] fun _ => "READ"

/-- The only school year. -/
def SchoolYearName.form : Form SchoolYearName :=
  .choice "SchooljaarNaam" [from2024To2025] fun _ => "2024/2025"

/-- The only establishment. -/
def EstablishmentName.form : Form EstablishmentName :=
  .choice "VestigingNaam" [reviusLyceumDoorn] fun _ => "Revius Lyceum Doorn"

/-- The only kind of homework. -/
def HomeworkType.form : Form HomeworkType := .choice "HuiswerkType" [homework] fun _ => "HUISWERK"

/-! ## Records -/

/-- A record without fields. -/
def AdditionalObjects.form : Form AdditionalObjects :=
  .record "AdditionalObjects" .nil (fun _ => ⟨⟩) fun _ => ()

/-- A link to a resource. -/
def Link.form : Form Link :=
  .record "Link"
    (.required "id" .number <|
      .required "rel" Relation.form <|
      .required "type" ResourceType.form <|
      .required "href" .text .nil)
    (fun (id, relation, type, address, _) => { id, relation, type, address })
    fun l => (l.id, l.relation, l.type, l.address, ())

/-- A permission on some resources. -/
def Permission.form : Form Permission :=
  .record "Permission"
    (.required "full" .text <|
      .required "type" ResourceType.form <|
      .required "operations" (.list Operation.form) <|
      .required "instances" (.list .text) .nil)
    (fun (full, type, operations, instances, _) => { full, type, operations, instances })
    fun p => (p.full, p.type, p.operations, p.instances, ())

/-- The fields that open a resource, followed by its own. -/
def Fields.resource {ρ : Type} (rest : Fields ρ) :
    Fields (List Link × List Permission × AdditionalObjects × ρ) :=
  .required "links" (.list Link.form) <|
    .required "permissions" (.list Permission.form) <|
    .required "additional_objects" AdditionalObjects.form rest

/-- An establishment of a school. -/
def Establishment.form : Form Establishment :=
  .record "Vestiging"
    (.resource <|
      .required "naam" EstablishmentName.form <|
      .required "uuid" .text .nil)
    (fun (links, permissions, additionalObjects, name, uuid, _) =>
      { links, permissions, additionalObjects, name, uuid })
    fun e => (e.links, e.permissions, e.additionalObjects, e.name, e.uuid, ())

/-- A subject that a school teaches. -/
def SchoolSubject.form : Form SchoolSubject :=
  .record "Vak"
    (.resource <|
      .required "afkorting" .text <|
      .required "naam" .text <|
      .required "uuid" .text .nil)
    (fun (links, permissions, additionalObjects, abbreviation, name, uuid, _) =>
      { links, permissions, additionalObjects, abbreviation, name, uuid })
    fun s => (s.links, s.permissions, s.additionalObjects, s.abbreviation, s.name, s.uuid, ())

/-- A school year with its first and last day. -/
def SchoolYear.form : Form SchoolYear :=
  .record "Schooljaar"
    (.required "type" ResourceType.form <| .resource <|
      .required "naam" SchoolYearName.form <|
      .nullable "vanaf_datum" .instant <|
      .nullable "tot_datum" .instant <|
      .required "is_huidig" .flag .nil)
    (fun (type, links, permissions, additionalObjects, name, firstDay, lastDay, isCurrent, _) =>
      { type, links, permissions, additionalObjects, name, firstDay, lastDay, isCurrent })
    fun y => (y.type, y.links, y.permissions, y.additionalObjects, y.name, y.firstDay, y.lastDay,
      y.isCurrent, ())

/-- A group that has lessons together. -/
def LessonGroup.form : Form LessonGroup :=
  .record "Lesgroep"
    (.resource <|
      .required "uuid" .text <|
      .required "naam" .text <|
      .required "omschrijving" .text <|
      .required "schooljaar" SchoolYear.form <|
      .required "vak" SchoolSubject.form <|
      .required "heeft_stamgroep" .flag <|
      .required "examendossier_ondersteund" .flag <|
      .required "vestiging" Establishment.form .nil)
    (fun (links, permissions, additionalObjects, uuid, name, description, schoolYear, subject,
        hasTutorGroup, supportsExamFile, establishment, _) =>
      { links, permissions, additionalObjects, uuid, name, description, schoolYear, subject,
        hasTutorGroup, supportsExamFile, establishment })
    fun g => (g.links, g.permissions, g.additionalObjects, g.uuid, g.name, g.description,
      g.schoolYear, g.subject, g.hasTutorGroup, g.supportsExamFile, g.establishment, ())

/-- The plan item that an assignment is about. -/
def PlanItem.form : Form PlanItem :=
  .record "StudiewijzerItem"
    (.resource <|
      .required "onderwerp" .text <|
      .required "huiswerk_type" HomeworkType.form <|
      .required "omschrijving" .text <|
      .required "inleverperiodes" .flag <|
      .required "lesmateriaal" .flag <|
      .required "projectgroepen" .flag <|
      .required "bijlagen" (.list .json) <|
      .required "externe_materialen" (.list .json) <|
      .required "inlevermomenten" (.list .json) <|
      .required "tonen" .flag <|
      .required "notitie_zichtbaar_voor_leerling" .flag <|
      .required "leerdoelen" .text .nil)
    (fun (links, permissions, additionalObjects, topic, homeworkType, description,
        hasHandInPeriods, hasMaterial, hasProjectGroups, attachments, externalMaterials,
        handInMoments, isShown, noteShownToPupil, learningGoals, _) =>
      { links, permissions, additionalObjects, topic, homeworkType, description, hasHandInPeriods,
        hasMaterial, hasProjectGroups, attachments, externalMaterials, handInMoments, isShown,
        noteShownToPupil, learningGoals })
    fun i => (i.links, i.permissions, i.additionalObjects, i.topic, i.homeworkType, i.description,
      i.hasHandInPeriods, i.hasMaterial, i.hasProjectGroups, i.attachments, i.externalMaterials,
      i.handInMoments, i.isShown, i.noteShownToPupil, i.learningGoals, ())

/-- An assignment of a plan item to a lesson group; when it was made may be missing. -/
def Assignment.form : Form Assignment :=
  .record "Item"
    (.required "type" ResourceType.form <| .resource <|
      .required "studiewijzer_item" PlanItem.form <|
      .required "sortering" .number <|
      .required "lesgroep" LessonGroup.form <|
      .nullable "datum_tijd" .instant <|
      .omittable "aangemaakt_op_datum_tijd" .instant .nil)
    (fun (type, links, permissions, additionalObjects, planItem, order, lessonGroup, date, created,
        _) =>
      { type, links, permissions, additionalObjects, planItem, order, lessonGroup, date, created })
    fun a => (a.type, a.links, a.permissions, a.additionalObjects, a.planItem, a.order,
      a.lessonGroup, a.date, a.created, ())

/-- A document is the list of its assignments. -/
def Document.form : Form Document :=
  .record "Welcome" (.required "items" (.list Assignment.form) .nil)
    (fun (items, _) => { items }) fun d => (d.items, ())

end Agenda
