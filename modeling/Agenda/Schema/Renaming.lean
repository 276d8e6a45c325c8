/-
The two names of a property.

Going to internal names a property is found by its wire name and stored under the other; going to
the wire it is the other way round. The properties of an object give a table from the names of one
side to those of the other. If two properties share a name on the side that is looked up, the
table keeps the place of the first and what the last one says.
-/
import Agenda.Schema.Basic
import Agenda.Table

set_option autoImplicit false

namespace Agenda

/-- Which way names are changed. -/
inductive Direction where
  | toInternal
  | toWire
deriving DecidableEq

namespace Direction

/-- The other way. -/
def opposite : Direction → Direction
  | toInternal => toWire
  | toWire => toInternal

variable {σ : Type}

/-- The name under which a property is looked up. -/
def sourceName : Direction → Property σ → String
  | toInternal, p => p.wireName
  | toWire, p => p.internalName

/-- The name under which a property is stored. -/
def targetName : Direction → Property σ → String
  | toInternal, p => p.internalName
  | toWire, p => p.wireName

end Direction

/-- Where a name leads: the name on the other side, and which of `n` properties it is. -/
structure Renamed (n : Nat) where
  target : String
  index : Fin n
deriving DecidableEq

/-- The table from the names of one side to those of the other. -/
def Renaming {σ : Type} (properties : List (Property σ)) (direction : Direction) :
    Table (Renamed properties.length) :=
  Table.ofList <| (List.finRange properties.length).map fun i =>
    (direction.sourceName properties[i], ⟨direction.targetName properties[i], i⟩)

end Agenda
