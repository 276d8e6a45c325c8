/-
The document of a school's homework service: a list of plan items, each set for a lesson group at
a date.

A resource carries links to itself, permissions and a place for additional objects; the words that
the service chooses from are enumerations. Lists in which the service may put anything stay JSON.
Dates may be null.
-/
import Agenda.Json.Value
import Agenda.Time.Instant

set_option autoImplicit false

namespace Agenda

/-- The kinds of resources. -/
inductive ResourceType where
  | establishment
  | lessonGroup
  | schoolYear
  | subject
  | planAssignment
  | planItem
deriving DecidableEq

/-- What a link leads to. -/
inductive Relation where
  | itself
deriving DecidableEq

/-- What a permission allows. -/
inductive Operation where
  | read
deriving DecidableEq

/-- The names of school years. -/
inductive SchoolYearName where
  | from2024To2025
deriving DecidableEq

/-- The names of establishments. -/
inductive EstablishmentName where
  | reviusLyceumDoorn
deriving DecidableEq

/-- The kinds of homework. -/
inductive HomeworkType where
  | homework
deriving DecidableEq

/-- The place for additional objects, which the service leaves empty. -/
structure AdditionalObjects where
deriving DecidableEq

/-- A link to a resource, with the number that identifies it. -/
structure Link where
  id : Number
  relation : Relation
  type : ResourceType
  address : String

/-- What may be done with instances of a resource. -/
structure Permission where
  full : String
  type : ResourceType
  operations : List Operation
  instances : List String

/-- A school building. -/
structure Establishment where
  links : List Link
  permissions : List Permission
  additionalObjects : AdditionalObjects
  name : EstablishmentName
  uuid : String

/-- A school subject. -/
structure SchoolSubject where
  links : List Link
  permissions : List Permission
  additionalObjects : AdditionalObjects
  abbreviation : String
  name : String
  uuid : String

/-- A school year with its first and last day. -/
structure SchoolYear where
  type : ResourceType
  links : List Link
  permissions : List Permission
  additionalObjects : AdditionalObjects
  name : SchoolYearName
  firstDay : Option Instant
  lastDay : Option Instant
  isCurrent : Bool

/-- A group of pupils that has lessons in a subject. -/
structure LessonGroup where
  links : List Link
  permissions : List Permission
  additionalObjects : AdditionalObjects
  uuid : String
  name : String
  description : String
  schoolYear : SchoolYear
  subject : SchoolSubject
  hasTutorGroup : Bool
  supportsExamFile : Bool
  establishment : Establishment

/-- An entry of a study plan: what is to be done. -/
structure PlanItem where
  links : List Link
  permissions : List Permission
  additionalObjects : AdditionalObjects
  topic : String
  homeworkType : HomeworkType
  description : String
  hasHandInPeriods : Bool
  hasMaterial : Bool
  hasProjectGroups : Bool
  attachments : List Json
  externalMaterials : List Json
  handInMoments : List Json
  isShown : Bool
  noteShownToPupil : Bool
  learningGoals : String

/-- A plan item that is set for a lesson group. -/
structure Assignment where
  type : ResourceType
  links : List Link
  permissions : List Permission
  additionalObjects : AdditionalObjects
  planItem : PlanItem
  order : Number
  lessonGroup : LessonGroup
  date : Option Instant
  created : Option Instant

/-- A whole document. -/
structure Document where
  items : List Assignment

end Agenda
