/-
Registries of named schemas, and what can be wrong with one.

A registry keeps its names in the order in which they were first registered; registering a name
again replaces its schema. It can be checked without any value: every reference must name a
registered schema, and no object may use a name twice on one side.
-/
import Agenda.Schema.Basic
import Agenda.Table

set_option autoImplicit false

namespace Agenda

/-- Schemas under distinct names. -/
structure Registry where
  schemas : Table Schema
  distinct : (Table.keys schemas).Nodup

namespace Registry

/-- No schemas at all. -/
def empty : Registry := ⟨[], by simp [Table.keys]⟩

/-- Puts a schema under a name. -/
def register (r : Registry) (name : String) (schema : Schema) : Registry :=
  ⟨r.schemas.insert name schema, Table.nodup_keys_insert name schema r.distinct⟩

/-- The registry that a list of names and schemas builds up. -/
def ofList (pairs : List (String × Schema)) : Registry :=
  pairs.foldl (fun r p => r.register p.1 p.2) empty

/-- The schema under a name. -/
def find? (r : Registry) (name : String) : Option Schema := r.schemas.find? name

/-- The names in order. -/
def names (r : Registry) : List String := r.schemas.keys

/-- How many schemas there are. -/
def size (r : Registry) : Nat := r.schemas.length

end Registry

/-- Something wrong with a registry, and under which name it stands. -/
inductive Issue where
  | danglingReference (owner target : String)
  | duplicateWireName (owner name : String)
  | duplicateInternalName (owner name : String)
deriving DecidableEq

namespace Schema

/-- A reference to a name that is not registered. -/
def danglingIssues (registered : List String) (owner target : String) : List Issue :=
  if target ∈ registered then [] else [.danglingReference owner target]

mutual

/-- What is wrong with a schema that stands under `owner`. -/
def issues (registered : List String) (owner : String) : Schema → List Issue
  | kind _ => []
  | literals _ _ => []
  | array element => element.issues registered owner
  | union candidates => issuesOfAll registered owner candidates
  | object properties none => issuesOfProperties registered owner [] [] properties
  | object properties (some extra) =>
    issuesOfProperties registered owner [] [] properties ++ extra.issues registered owner
  | reference target => danglingIssues registered owner target

/-- What is wrong with each of several schemas. -/
def issuesOfAll (registered : List String) (owner : String) : List Schema → List Issue
  | [] => []
  | s :: rest => s.issues registered owner ++ issuesOfAll registered owner rest

/-- What is wrong with the properties of one object, given the wire names and the internal names of
those before. -/
def issuesOfProperties (registered : List String) (owner : String) (wire internal : List String) :
    List (Property Schema) → List Issue
  | [] => []
  | p :: rest =>
    (if p.wireName ∈ wire then [.duplicateWireName owner p.wireName] else []) ++
    (if p.internalName ∈ internal then [.duplicateInternalName owner p.internalName] else []) ++
    p.schema.issues registered owner ++
    issuesOfProperties registered owner (p.wireName :: wire) (p.internalName :: internal) rest

end

end Schema

/-- Everything that is wrong with a registry, in the order in which it is found. -/
def Registry.issues (r : Registry) : List Issue :=
  r.schemas.flatMap fun p => p.2.issues r.names p.1

end Agenda
