/-
Converting values under a registry of schemas.

One engine serves both directions. Going to internal names it validates a wire value, renames the
members of its objects and turns timestamp strings into instants; going to the wire it undoes all
that.

Schemas may be recursive, so the value is what gets smaller: converting an array or an object
turns each part into an attempt, a function that still waits for the schema of that part.
References and unions keep the value and walk the schemas instead. A union is part of the schema
that is walked, and a chain of references that meets no name twice is no longer than the registry;
a longer one has met a schema that leads back to itself, and the engine says so. An absent value
has no parts at all.
-/
import Agenda.Conversion.Error
import Agenda.Schema.Describe
import Agenda.Schema.Registry
import Agenda.Schema.Renaming
import Agenda.Time.Reader

set_option autoImplicit false

namespace Agenda

/-- The result of a conversion: absence is kept apart from null. -/
abbrev Converted := Except ConversionError (Option Data)

/-- The conversion of a part of a value, waiting to know where the part stands and what it should
look like. -/
abbrev Attempt := Site → Schema → Converted

/-- A value that is to be converted, with an attempt for each of its parts. -/
inductive Subject where
  | absent
  | scalar (value : Data)
  | array (items : List Data) (attempts : List Attempt)
  | object (members : List (String × Data)) (attempts : Table Attempt)

/-- The value that is to be converted. -/
def Subject.value? : Subject → Option Data
  | absent => none
  | scalar v => some v
  | array items _ => some (.array items)
  | object members _ => some (.object members)

namespace Engine

/-- Refuses a value. -/
def reject {α : Type} (subject : Subject) (site : Site) (expected : String) :
    Except ConversionError α :=
  .error (.rejected ⟨expected, subject.value?, site⟩)

/-! ## Schemas that say what a value looks like -/

/-- An instant, on the side to which the conversion goes. -/
def placeInstant (direction : Direction) (t : Instant) : Data :=
  match direction with
  | .toInternal => .atom t
  | .toWire => .string (Data.spell t)

/-- The instant that a value denotes. Numbers denote none. -/
def instantOf? : Option Data → Option Instant
  | some (.atom t) => some t.truncate
  | some (.string s) => Timestamp.read? s
  | _ => none

/-- Converts a value at a timestamp position. Null stays null. -/
def timestamp (direction : Direction) (subject : Subject) (site : Site) : Converted :=
  match subject.value? with
  | some .null => .ok (some .null)
  | value =>
    match instantOf? value with
    | some t => .ok (some (placeInstant direction t))
    | none => reject subject site Kind.timestamp.name

/-- Whether a kind other than `timestamp` accepts a value. -/
def admits : Kind → Option Data → Bool
  | .any, _ => true
  | .absent, none => true
  | .null, some .null => true
  | .string, some (.string _) => true
  | .number, some (.number _) => true
  | .boolean, some (.bool _) => true
  | _, _ => false

/-- Converts a value under a kind. -/
def kind (direction : Direction) (k : Kind) (subject : Subject) (site : Site) : Converted :=
  if k = .timestamp then timestamp direction subject site
  else if admits k subject.value? then .ok subject.value?
  else reject subject site k.name

/-- Converts a value under a set of words. -/
def literals (words : List String) (expected : String) (subject : Subject) (site : Site) :
    Converted :=
  match subject.value? with
  | some (.string s) => if s ∈ words then .ok subject.value? else reject subject site expected
  | _ => reject subject site expected

/-- Converts the elements of an array, all under one schema. An absent result stands as null. -/
def elements (element : Schema) (site : Site) : List Attempt → Except ConversionError (List Data)
  | [] => .ok []
  | attempt :: rest => do
    let v ← attempt site element
    let vs ← elements element site rest
    .ok (v.getD .null :: vs)

/-- Puts a converted member under a name; an absent one is left out. -/
def store (out : Table Data) (name : String) : Option Data → Table Data
  | none => out
  | some v => out.insert name v

/-- Converts the declared members of an object, in the order of the declaration. A key that the
object lacks is tried as absent. -/
def declared (properties : List (Property Schema)) (owner : Option String) (absent : Attempt)
    (attempts : Table Attempt) :
    Table (Renamed properties.length) → Table Data → Except ConversionError (Table Data)
  | [], out => .ok out
  | (source, renamed) :: rest, out => do
    let attempt := (Table.find? attempts source).getD absent
    let v ← attempt ⟨some source, owner⟩ properties[renamed.index].schema
    declared properties owner absent attempts rest (store out renamed.target v)

/-- Converts the members that are not declared, in the order of the object. -/
def undeclared (additional : Option Schema) (owner : Option String) (isDeclared : String → Bool) :
    List (String × Data) → Table Attempt → Table Data → Except ConversionError (Table Data)
  | (key, v) :: members, (_, attempt) :: attempts, out =>
    if isDeclared key then undeclared additional owner isDeclared members attempts out
    else
      match additional with
      | none => .error (.rejected ⟨"no property with this name", some v, ⟨some key, owner⟩⟩)
      | some extra => do
        let w ← attempt ⟨some key, owner⟩ extra
        undeclared additional owner isDeclared members attempts (store out key w)
  | _, _, out => .ok out

/-- Converts an object: first what is declared, then what is not. -/
def object (direction : Direction) (absent : Attempt) (owner : Option String)
    (properties : List (Property Schema)) (additional : Option Schema) (subject : Subject)
    (site : Site) : Converted :=
  match subject with
  | .object members attempts => do
    let names := Renaming properties direction
    let out ← declared properties owner absent attempts names []
    let out ← undeclared additional owner (fun key => (Table.find? names key).isSome)
      members attempts out
    .ok (some (.object out))
  | _ => reject subject site (owner.getD "object")

/-- Converts a value under a schema that says what it looks like. References and unions do not say
so; what is made of them here is never looked at. -/
def settled (direction : Direction) (absent : Attempt) (owner : Option String) (schema : Schema)
    (subject : Subject) (site : Site) : Converted :=
  match schema with
  | .kind k => kind direction k subject site
  | .literals words _ => literals words schema.describe subject site
  | .array element =>
    match subject with
    | .array _ attempts => do
      let items ← elements element site attempts
      .ok (some (.array items))
    | _ => reject subject site "array"
  | .object properties additional =>
    object direction absent owner properties additional subject site
  | .union _ => reject subject site schema.describe
  | .reference name => .error (.schemaNotFound name)

/-! ## Schemas that lead to others -/

section

variable (follow : String → Converted) (settle : Option String → Schema → Converted)
  (refuse : String → Converted)

mutual

/-- Walks a schema down to those that say what a value looks like. `owner` is the name by which the
schema was reached, if it was reached by one. -/
def walk (owner : Option String) : Schema → Converted
  | .reference name => follow name
  | .union candidates => firstOf (Schema.describe (.union candidates)) candidates
  | schema => settle owner schema

/-- The first candidate that does not reject the value. Other failures end the search. -/
def firstOf (expected : String) : List Schema → Converted
  | [] => refuse expected
  | candidate :: rest =>
    match walk none candidate with
    | .error (.rejected _) => firstOf expected rest
    | result => result

end

end

/-- Follows a reference, through at most `budget` names. -/
def follow (registry : Registry) (settle : Option String → Schema → Converted)
    (refuse : String → Converted) : Nat → String → Converted
  | budget, name =>
    match registry.find? name with
    | none => .error (.schemaNotFound name)
    | some schema =>
      match budget with
      | 0 => .error (.endless name)
      | left + 1 => walk (follow registry settle refuse left) settle refuse (some name) schema

/-- Converts a subject, given the conversion of absence. -/
def convertSubject (registry : Registry) (direction : Direction) (absent : Attempt)
    (subject : Subject) : Attempt := fun site schema =>
  let settle := fun owner s => settled direction absent owner s subject site
  let refuse := reject subject site
  walk (follow registry settle refuse registry.size) settle refuse none schema

/-! ## Values -/

/-- Converts an absent value. It has no parts, so no other conversion of absence is needed for it.
-/
def convertAbsent (registry : Registry) (direction : Direction) : Attempt :=
  convertSubject registry direction (fun site _ => reject .absent site "object") .absent

mutual

/-- Converts a value. -/
def convertValue (registry : Registry) (direction : Direction) : Data → Attempt
  | .array items =>
    convertSubject registry direction (convertAbsent registry direction)
      (.array items (convertItems registry direction items))
  | .object members =>
    convertSubject registry direction (convertAbsent registry direction)
      (.object members (convertMembers registry direction members))
  | v => convertSubject registry direction (convertAbsent registry direction) (.scalar v)

/-- An attempt for each element of an array. -/
def convertItems (registry : Registry) (direction : Direction) : List Data → List Attempt
  | [] => []
  | v :: rest => convertValue registry direction v :: convertItems registry direction rest

/-- An attempt for each member of an object. -/
def convertMembers (registry : Registry) (direction : Direction) :
    List (String × Data) → Table Attempt
  | [] => []
  | (key, v) :: rest =>
    (key, convertValue registry direction v) :: convertMembers registry direction rest

end

/-- Converts a value or its absence under a schema. -/
def convert (registry : Registry) (direction : Direction) : Option Data → Attempt
  | none => convertAbsent registry direction
  | some v => convertValue registry direction v

/-- Converts a value under a named schema. -/
def run (registry : Registry) (direction : Direction) (name : String) (v : Data) :
    Except ConversionError Data := do
  let out ← convert registry direction (some v) .root (.reference name)
  .ok (out.getD .null)

/-- Validates a wire value against a named schema and gives it its internal names. -/
def cast (registry : Registry) (name : String) (v : Data) : Except ConversionError Data :=
  run registry .toInternal name v

/-- Gives a converted value its wire names back. -/
def uncast (registry : Registry) (name : String) (v : Data) : Except ConversionError Data :=
  run registry .toWire name v

end Engine

end Agenda
