/-
Trees of values.

One type serves for the data format and for what a schema makes of it: the format's own values, and
a further kind of leaf that its text cannot spell. With no such leaf it is plain JSON; with instants
as leaves it is a converted document. Replacing every leaf by a tree turns one into the other.
-/
import Agenda.Number
import Agenda.Table

set_option autoImplicit false

namespace Agenda

/-- A tree of values with leaves of type `α` beside those of the data format. The members of an
object are a table: a reader of text never gives one key twice. -/
inductive Value (α : Type) where
  | null
  | bool (b : Bool)
  | number (n : Number)
  | string (s : String)
  | atom (a : α)
  | array (items : List (Value α))
  | object (members : List (String × Value α))

/-- A value of the data format. -/
abbrev Json := Value Empty

namespace Value

variable {α β : Type}

instance : Inhabited (Value α) := ⟨null⟩

mutual

/-- Puts a tree in the place of every leaf. -/
def graft (f : α → Value β) : Value α → Value β
  | null => null
  | bool b => bool b
  | number n => number n
  | string s => string s
  | atom a => f a
  | array items => array (graftItems f items)
  | object members => object (graftMembers f members)

/-- The same for each element of an array. -/
def graftItems (f : α → Value β) : List (Value α) → List (Value β)
  | [] => []
  | v :: rest => graft f v :: graftItems f rest

/-- The same for each member of an object. -/
def graftMembers (f : α → Value β) : List (String × Value α) → List (String × Value β)
  | [] => []
  | (k, v) :: rest => (k, graft f v) :: graftMembers f rest

end

/-- Grafting works on each element by itself. -/
theorem graftItems_eq_map (f : α → Value β) (items : List (Value α)) :
    graftItems f items = items.map (graft f) := by
  induction items with
  | nil => rfl
  | cons v rest ih => simp [graftItems, ih]

/-- Grafting works on each member by itself and leaves the keys alone. -/
theorem graftMembers_eq_map (f : α → Value β) (members : List (String × Value α)) :
    graftMembers f members = members.map fun m => (m.1, graft f m.2) := by
  induction members with
  | nil => rfl
  | cons m rest ih => simp [graftMembers, ih]

/-- The member of an object under a key; none for any other value. -/
def get? : Value α → String → Option (Value α)
  | object members, key => Table.find? members key
  | _, _ => none

end Value

end Agenda
