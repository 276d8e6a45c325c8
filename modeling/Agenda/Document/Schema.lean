/-
The bundled registry: the schemas of the service's response.

Every resource opens with the same three members, and no object may have members beyond those that
are declared. Wire names are the service's own; internal names are written with underscores.
-/
import Agenda.Document.Model
import Agenda.Schema.Registry

set_option autoImplicit false

namespace Agenda.Document

open Schema

/-- The name of the schema of a whole document. -/
def root : String := "Welcome"

/-- An array of values of a named schema. -/
def listOf (name : String) : Schema := array (reference name)

/-- An object with just these members. -/
def strict (properties : List (Property Schema)) : Schema := object properties none

/-- The member that says of what type a resource is. -/
def typeTag : Property Schema := ⟨"$type", "type", reference "Type"⟩

/-- The members that open a resource. -/
def resourceHeader : List (Property Schema) :=
  [.plain "links" (listOf "Link"),
    .plain "permissions" (listOf "Permission"),
    ⟨"additionalObjects", "additional_objects", reference "AdditionalObjects"⟩]

/-- A resource with its own members after those that open it. -/
def resource (properties : List (Property Schema)) : Schema := strict (resourceHeader ++ properties)

/-- The schema of an assignment. When it was made may be missing. -/
def itemSchema : Schema :=
  strict ([typeTag] ++ resourceHeader ++
    [⟨"studiewijzerItem", "studiewijzer_item", reference "StudiewijzerItem"⟩,
      .plain "sortering" (kind .number),
      .plain "lesgroep" (reference "Lesgroep"),
      ⟨"datumTijd", "datum_tijd", kind .timestamp⟩,
      ⟨"aangemaaktOpDatumTijd", "aangemaakt_op_datum_tijd", optional (kind .timestamp)⟩])

/-- The schema of a lesson group. -/
def lessonGroupSchema : Schema :=
  resource
    [⟨"UUID", "uuid", kind .string⟩,
      .plain "naam" (kind .string),
      .plain "omschrijving" (kind .string),
      .plain "schooljaar" (reference "Schooljaar"),
      .plain "vak" (reference "Vak"),
      ⟨"heeftStamgroep", "heeft_stamgroep", kind .boolean⟩,
      ⟨"examendossierOndersteund", "examendossier_ondersteund", kind .boolean⟩,
      .plain "vestiging" (reference "Vestiging")]

/-- The schema of a link. -/
def linkSchema : Schema :=
  strict
    [.plain "id" (kind .number),
      .plain "rel" (reference "Rel"),
      .plain "type" (reference "Type"),
      .plain "href" (kind .string)]

/-- The schema of a permission. -/
def permissionSchema : Schema :=
  strict
    [.plain "full" (kind .string),
      .plain "type" (reference "Type"),
      .plain "operations" (listOf "Operation"),
      .plain "instances" (array (kind .string))]

/-- The schema of a school year. -/
def schoolYearSchema : Schema :=
  strict ([typeTag] ++ resourceHeader ++
    [.plain "naam" (reference "SchooljaarNaam"),
      ⟨"vanafDatum", "vanaf_datum", kind .timestamp⟩,
      ⟨"totDatum", "tot_datum", kind .timestamp⟩,
      ⟨"isHuidig", "is_huidig", kind .boolean⟩])

/-- The schema of a subject. -/
def subjectSchema : Schema :=
  resource
    [.plain "afkorting" (kind .string),
      .plain "naam" (kind .string),
      ⟨"UUID", "uuid", kind .string⟩]

/-- The schema of an establishment. -/
def establishmentSchema : Schema :=
  resource
    [.plain "naam" (reference "VestigingNaam"),
      .plain "uuid" (kind .string)]

/-- The schema of a plan item. -/
def planItemSchema : Schema :=
  resource
    [.plain "onderwerp" (kind .string),
      ⟨"huiswerkType", "huiswerk_type", reference "HuiswerkType"⟩,
      .plain "omschrijving" (kind .string),
      .plain "inleverperiodes" (kind .boolean),
      .plain "lesmateriaal" (kind .boolean),
      .plain "projectgroepen" (kind .boolean),
      .plain "bijlagen" (array (kind .any)),
      ⟨"externeMaterialen", "externe_materialen", array (kind .any)⟩,
      .plain "inlevermomenten" (array (kind .any)),
      .plain "tonen" (kind .boolean),
      ⟨"notitieZichtbaarVoorLeerling", "notitie_zichtbaar_voor_leerling", kind .boolean⟩,
      .plain "leerdoelen" (kind .string)]

/-- The schema of the names for kinds of resources. -/
def typeSchema : Schema :=
  oneOf
    ["instelling.RVestiging", "lesgroep.RLesgroep", "onderwijsinrichting.RSchooljaar",
      "onderwijsinrichting.RVak", "studiewijzer.RSWIAfspraakToekenning",
      "studiewijzer.RStudiewijzerItem"]

/-- The schemas of a document under their names. -/
def registry : Registry :=
  .ofList
    [(root, strict [.plain "items" (listOf "Item")]),
      ("Item", itemSchema),
      ("AdditionalObjects", strict []),
      ("Lesgroep", lessonGroupSchema),
      ("Link", linkSchema),
      ("Permission", permissionSchema),
      ("Schooljaar", schoolYearSchema),
      ("Vak", subjectSchema),
      ("Vestiging", establishmentSchema),
      ("StudiewijzerItem", planItemSchema),
      ("Type", typeSchema),
      ("Rel", oneOf ["self"]),
      ("Operation", oneOf ["READ"]),
      ("SchooljaarNaam", oneOf ["2024/2025"]),
      ("VestigingNaam", oneOf ["Revius Lyceum Doorn"]),
      ("HuiswerkType", oneOf ["HUISWERK"])]

end Agenda.Document
