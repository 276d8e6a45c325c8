/-
Forms: how a typed value is written as JSON and read back.

A form is a description of a type, a record being described field by field, and reading and writing
are two walks over that one description. A reader that refuses a value says why and where: the
reasons carry what was found and what was expected, and the place is the path of keys and positions
that leads to it.

A record is read from an object or from a list of its fields. The members of an object are read in
their own order, so of several members that do not fit the first one is reported; a field that is
missing is noticed only after all of them.
-/
import Agenda.Data
import Agenda.Text.Quoted
import Agenda.Time.Reader

set_option autoImplicit false

namespace Agenda

/-! ## Why a value does not fit -/

/-- One step down a value. -/
inductive Step where
  | key (name : String)
  | index (i : Nat)
deriving DecidableEq

/-- The steps that lead to a part of a value. -/
abbrev Path := List Step

namespace Path

/-- The steps after the first one. A key is set off by a point. -/
def tailText : Path → String
  | [] => ""
  | .key name :: rest => "." ++ name ++ tailText rest
  | .index i :: rest => "[" ++ toString i ++ "]" ++ tailText rest

/-- A path as messages show it; the value itself is a point. -/
def text : Path → String
  | [] => "."
  | .key name :: rest => name ++ tailText rest
  | .index i :: rest => "[" ++ toString i ++ "]" ++ tailText rest

end Path

/-- Why a value does not fit. -/
inductive Misfit where
  | wrongType (found : Data) (expected : String)
  | unknownWord (word : String) (known : List String)
  | missingField (name : String)
  | wrongLength (length : Nat) (expected : String)
  | unreadable (reason : Unreadable)

/-- A value that does not fit, and where it stands. -/
structure Mismatch where
  path : Path
  misfit : Misfit

namespace Misfit

/-- A value as a message names it. -/
def foundText : Data → String
  | .null => "unit value"
  | .bool b => "boolean `" ++ toString b ++ "`"
  | .number n =>
    match n with
    | .integer _ _ => "integer `" ++ String.ofList n.text ++ "`"
    | .float _ => "floating point `" ++ String.ofList n.text ++ "`"
  | .string s => "string " ++ Quoted.text s
  | .atom t => "string " ++ Quoted.text (Data.spell t)
  | .array _ => "sequence"
  | .object _ => "map"

/-- A word between back quotes. -/
def ticked (word : String) : String := "`" ++ word ++ "`"

/-- A choice of words. -/
def choiceText : List String → String
  | [a] => ticked a
  | [a, b] => ticked a ++ " or " ++ ticked b
  | words => "one of " ++ ", ".intercalate (words.map ticked)

/-- The message of a reason. -/
def message : Misfit → String
  | wrongType found expected => "invalid type: " ++ foundText found ++ ", expected " ++ expected
  | unknownWord word known =>
    "unknown variant " ++ ticked word ++ ", expected " ++ choiceText known
  | missingField name => "missing field " ++ ticked name
  | wrongLength length expected =>
    "invalid length " ++ toString length ++ ", expected " ++ expected
  | unreadable reason => reason.message

/-- A number of elements. -/
def elementsText (n : Nat) : String :=
  toString n ++ if n = 1 then " element" else " elements"

end Misfit

/-! ## Forms -/

mutual

/-- How the values of a type are written. -/
inductive Form : Type → Type 1 where
  | text : Form String
  | flag : Form Bool
  | number : Form Number
  | instant : Form Instant
  /-- Any value at all. -/
  | json : Form Json
  | list {α : Type} (item : Form α) : Form (List α)
  /-- A value out of a few, each spelled by a word. -/
  | word {α : Type} (name : String) (words : List (String × α)) (spell : α → String) : Form α
  /-- A record that is put together from its fields and taken apart into them. -/
  | record {α ρ : Type} (name : String) (fields : Fields ρ) (make : ρ → α) (split : α → ρ) : Form α

/-- The fields of a record, and the type of all their values together. -/
inductive Fields : Type → Type 1 where
  | nil : Fields Unit
  | required {α ρ : Type} (name : String) (form : Form α) (rest : Fields ρ) : Fields (α × ρ)
  /-- A value or null. A missing member reads as null. -/
  | nullable {α ρ : Type} (name : String) (form : Form α) (rest : Fields ρ) :
      Fields (Option α × ρ)
  /-- A value or null, where null is not written at all. -/
  | omittable {α ρ : Type} (name : String) (form : Form α) (rest : Fields ρ) :
      Fields (Option α × ρ)

end

/-- The number of fields. -/
def Fields.size {ρ : Type} : Fields ρ → Nat
  | nil => 0
  | required _ _ rest => rest.size + 1
  | nullable _ _ rest => rest.size + 1
  | omittable _ _ rest => rest.size + 1

/-! ## Writing -/

mutual

/-- A value as JSON. -/
def Form.write {α : Type} : Form α → α → Json
  | .text, s => .string s
  | .flag, b => .bool b
  | .number, n => .number n
  | .instant, t => .string (String.ofList t.exact)
  | .json, v => v
  | .list item, xs => .array (xs.map item.write)
  | .word _ _ spell, a => .string (spell a)
  | .record _ fields _ split, a => .object (fields.write (split a))

/-- The members for the fields of a record. -/
def Fields.write {ρ : Type} : Fields ρ → ρ → List (String × Json)
  | .nil, _ => []
  | .required name form rest, (a, r) => (name, form.write a) :: rest.write r
  | .nullable name _ rest, (none, r) => (name, .null) :: rest.write r
  | .nullable name form rest, (some a, r) => (name, form.write a) :: rest.write r
  | .omittable _ _ rest, (none, r) => rest.write r
  | .omittable name form rest, (some a, r) => (name, form.write a) :: rest.write r

end

/-! ## Reading -/

namespace Form

/-- Refuses a value for its type. -/
def wrongType {α : Type} (found : Data) (expected : String) : Except Mismatch α :=
  .error ⟨[], .wrongType found expected⟩

/-- The same failure, seen from one step above. -/
def under {α : Type} (step : Step) (result : Except Mismatch α) : Except Mismatch α :=
  result.mapError fun m => { m with path := step :: m.path }

/-- A value or null. -/
def orNull {α : Type} (read : Data → Except Mismatch α) : Data → Except Mismatch (Option α)
  | .null => .ok none
  | d => (read d).map some

/-- The text of a value that is one, an instant being spelled canonically. -/
def textOf? : Data → Option String
  | .string s => some s
  | .atom t => some (Data.spell t)
  | _ => none

/-- The elements of an array, counted from `i`. -/
def readItems {α : Type} (read : Data → Except Mismatch α) : Nat → List Data →
    Except Mismatch (List α)
  | _, [] => .ok []
  | i, d :: rest => do
    let a ← under (.index i) (read d)
    let as ← readItems read (i + 1) rest
    .ok (a :: as)

/-- The place of a key among the members of an object, and what stands under it. -/
def position? : List (String × Data) → String → Option (Nat × Data)
  | [], _ => none
  | (k, d) :: rest, key =>
    if k = key then some (0, d) else (position? rest key).map fun p => (p.1 + 1, p.2)

/-- A result whose failure stands at a place among the members. -/
abbrev Placed (α : Type) := Except (Nat × Mismatch) α

/-- The result for one member; `absent` if there is none. -/
def placed {α : Type} (members : List (String × Data)) (name : String)
    (read : Data → Except Mismatch α) (absent : Except Mismatch α) : Placed α :=
  match position? members name with
  | some (i, d) => (under (.key name) (read d)).mapError fun m => (i, m)
  | none => absent.mapError fun m => (members.length, m)

/-- Both results, or the failure that stands first. -/
def both {α β : Type} : Placed α → Placed β → Placed (α × β)
  | .ok a, .ok b => .ok (a, b)
  | .ok _, .error f => .error f
  | .error e, .ok _ => .error e
  | .error e, .error f => .error (if f.1 < e.1 then f else e)

/-- The next element of a list that stands for a record; `absent` if the list is used up. -/
def nextItem {α : Type} (read : Data → Except Mismatch α) (absent : Except Mismatch α) (i : Nat) :
    List Data → Except Mismatch (α × List Data)
  | [] => absent.map fun a => (a, [])
  | d :: rest => (under (.index i) (read d)).map fun a => (a, rest)

end Form

/-- A list that ends before all fields of a record are read. -/
def Fields.tooShort {α : Type} (name : String) (size i : Nat) : Except Mismatch α :=
  .error ⟨[], .wrongLength i ("struct " ++ name ++ " with " ++ Misfit.elementsText size)⟩

/-- A list with elements left after all fields of a record are read. -/
def Fields.tooLong {α : Type} (size length : Nat) : Except Mismatch α :=
  .error ⟨[], .wrongLength length (Misfit.elementsText size ++ " in sequence")⟩

mutual

/-- A value of the type that a form describes, or why there is none. -/
def Form.read {α : Type} : Form α → Data → Except Mismatch α
  | .text, d =>
    match Form.textOf? d with
    | some s => .ok s
    | none => Form.wrongType d "a string"
  | .flag, d =>
    match d with
    | .bool b => .ok b
    | _ => Form.wrongType d "a boolean"
  | .number, d =>
    match d with
    | .number n => .ok n
    | _ => Form.wrongType d "a JSON number"
  | .instant, d =>
    match Form.textOf? d with
    | some s => (Instant.ofText s).mapError fun e => ⟨[], .unreadable e⟩
    | none => Form.wrongType d "an RFC 3339 formatted date and time string"
  | .json, d => .ok d.toJson
  | .list item, d =>
    match d with
    | .array ds => Form.readItems item.read 0 ds
    | _ => Form.wrongType d "a sequence"
  | .word name words _, d =>
    match d with
    | .string s =>
      match Table.find? words s with
      | some a => .ok a
      | none => .error ⟨[], .unknownWord s (Table.keys words)⟩
    | _ => Form.wrongType d ("enum " ++ name)
  | .record name fields make _, d =>
    match d with
    | .object members => ((fields.readMembers members).mapError Prod.snd).map make
    | .array ds => do
      let (r, rest) ← fields.readItems name fields.size 0 ds
      if rest.isEmpty then .ok (make r) else Fields.tooLong fields.size ds.length
    | _ => Form.wrongType d ("struct " ++ name)

/-- The fields of a record from the members of an object. Members that are no fields are ignored. -/
def Fields.readMembers {ρ : Type} : Fields ρ → List (String × Data) → Form.Placed ρ
  | .nil, _ => .ok ()
  | .required name form rest, members =>
    Form.both (Form.placed members name form.read (.error ⟨[], .missingField name⟩))
      (rest.readMembers members)
  | .nullable name form rest, members =>
    Form.both (Form.placed members name (Form.orNull form.read) (.ok none))
      (rest.readMembers members)
  | .omittable name form rest, members =>
    Form.both (Form.placed members name (Form.orNull form.read) (.ok none))
      (rest.readMembers members)

/-- The fields of a record from the elements of a list, counted from `i`, and the elements that are
left. -/
def Fields.readItems {ρ : Type} : Fields ρ → String → Nat → Nat → List Data →
    Except Mismatch (ρ × List Data)
  | .nil, _, _, _, ds => .ok ((), ds)
  | .required _ form rest, record, size, i, ds => do
    let (a, ds) ← Form.nextItem form.read (Fields.tooShort record size i) i ds
    let (r, ds) ← rest.readItems record size (i + 1) ds
    .ok ((a, r), ds)
  | .nullable _ form rest, record, size, i, ds => do
    let (a, ds) ← Form.nextItem (Form.orNull form.read) (Fields.tooShort record size i) i ds
    let (r, ds) ← rest.readItems record size (i + 1) ds
    .ok ((a, r), ds)
  | .omittable _ form rest, record, size, i, ds => do
    let (a, ds) ← Form.nextItem (Form.orNull form.read) (.ok none) i ds
    let (r, ds) ← rest.readItems record size (i + 1) ds
    .ok ((a, r), ds)

end

end Agenda
