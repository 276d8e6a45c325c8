/-
The renderings of data.

Data becomes JSON in four ways: it is rendered as a value, it is told call by call to a writer, it
is shown to a visitor who reads any value at all, and it is written as text. Each way goes through
the data by itself, and each spells instants on its own. A writer that builds a value keeps the
arrays and objects that it has begun on a stack, and puts each member into its object as a map does
it, a key that comes again staying in its place; a visitor does the same with the members that it is
shown. All of them come to the same value, with the same order of keys, and so do the renderings of
what is lifted from that value, in which no instant is left.
-/
import Agenda.Document.Form
import Agenda.Proofs.Conversion.Reordering
import Agenda.Proofs.Json.Written

set_option autoImplicit false

namespace Agenda

variable {α β : Type}

/-! ## Telling a value to a writer -/

/-- The calls by which a writer of any format is told a value. Arrays and objects are announced with
their lengths. -/
inductive Call where
  | unit
  | bool (b : Bool)
  | number (n : Number)
  | text (s : String)
  | array (length : Nat)
  | object (length : Nat)
  | key (k : String)
  | finish

namespace Value

section

variable (spell : α → String)

mutual

/-- The calls for a value, its leaves spelled as texts. -/
def calls : Value α → List Call
  | null => [.unit]
  | bool b => [.bool b]
  | number n => [.number n]
  | string s => [.text s]
  | atom a => [.text (spell a)]
  | array items => .array items.length :: (callsOfItems items ++ [.finish])
  | object members => .object members.length :: (callsOfMembers members ++ [.finish])

/-- The calls for the elements of an array. -/
def callsOfItems : List (Value α) → List Call
  | [] => []
  | v :: rest => calls v ++ callsOfItems rest

/-- The calls for the members of an object. -/
def callsOfMembers : List (String × Value α) → List Call
  | [] => []
  | (k, v) :: rest => .key k :: (calls v ++ callsOfMembers rest)

end

theorem callsOfItems_eq (items : List (Value α)) :
    callsOfItems spell items = items.flatMap (calls spell) := by
  induction items with
  | nil => rfl
  | cons v rest ih => rw [callsOfItems, ih, List.flatMap_cons]

theorem callsOfMembers_eq (members : List (String × Value α)) :
    callsOfMembers spell members = members.flatMap fun m => .key m.1 :: calls spell m.2 := by
  induction members with
  | nil => rfl
  | cons m rest ih => rw [callsOfMembers, ih, List.flatMap_cons, List.cons_append]

end

/-! ## Showing a value to a visitor -/

end Value

/-- A visitor makes something of each kind of value. Of an array it is given what it has made of the
elements, and of an object what it has made of the members, in their order. -/
structure Visitor (β : Type) where
  unit : β
  bool : Bool → β
  number : Number → β
  text : String → β
  array : List β → β
  object : List (String × β) → β

namespace Value

section

variable (spell : α → String) (visitor : Visitor β)

mutual

/-- What a visitor makes of a value that spells its leaves as texts. -/
def visit : Value α → β
  | null => visitor.unit
  | bool b => visitor.bool b
  | number n => visitor.number n
  | string s => visitor.text s
  | atom a => visitor.text (spell a)
  | array items => visitor.array (visitItems items)
  | object members => visitor.object (visitMembers members)

/-- What it makes of the elements of an array. -/
def visitItems : List (Value α) → List β
  | [] => []
  | v :: rest => visit v :: visitItems rest

/-- What it makes of the members of an object. -/
def visitMembers : List (String × Value α) → List (String × β)
  | [] => []
  | (k, v) :: rest => (k, visit v) :: visitMembers rest

end

theorem visitItems_eq_map (items : List (Value α)) :
    visitItems spell visitor items = items.map (visit spell visitor) := by
  induction items with
  | nil => rfl
  | cons v rest ih => rw [visitItems, ih, List.map_cons]

theorem visitMembers_eq_map (members : List (String × Value α)) :
    visitMembers spell visitor members = members.map fun m => (m.1, visit spell visitor m.2) := by
  induction members with
  | nil => rfl
  | cons m rest ih => rw [visitMembers, ih, List.map_cons]

end

end Value

/-- A visitor who reads any value at all as JSON. -/
def Json.visitor : Visitor Json where
  unit := .null
  bool := .bool
  number := .number
  text := .string
  array := .array
  object := fun members => .object (Table.ofList members)

/-! ## A writer that builds a value -/

namespace Json

/-- An array or object that has been begun: the elements so far, or the members so far and the key
of the next one. -/
inductive Open where
  | array (items : List Json)
  | object (members : Table Json) (key : Option String)

/-- What has been built: the arrays and objects that have been begun, the innermost first, and the
value if it is complete. -/
structure Builder where
  opened : List Open
  built : Option Json

namespace Builder

/-- Puts a complete value where the next one is due. -/
def put : Builder → Json → Option Builder
  | ⟨[], none⟩, v => some ⟨[], some v⟩
  | ⟨.array items :: outer, built⟩, v => some ⟨.array (items ++ [v]) :: outer, built⟩
  | ⟨.object members (some key) :: outer, built⟩, v =>
    some ⟨.object (Table.insert members key v) none :: outer, built⟩
  | _, _ => none

/-- Follows one call. -/
def step (b : Builder) : Call → Option Builder
  | .unit => b.put .null
  | .bool x => b.put (.bool x)
  | .number n => b.put (.number n)
  | .text s => b.put (.string s)
  | .array _ => some { b with opened := .array [] :: b.opened }
  | .object _ => some { b with opened := .object [] none :: b.opened }
  | .key k =>
    match b.opened with
    | .object members none :: outer => some { b with opened := .object members (some k) :: outer }
    | _ => none
  | .finish =>
    match b.opened with
    | .array items :: outer => put ⟨outer, b.built⟩ (.array items)
    | .object members none :: outer => put ⟨outer, b.built⟩ (.object members)
    | _ => none

end Builder

/-- The value that calls build, if they build one. -/
def ofCalls? (calls : List Call) : Option Json :=
  match calls.foldlM Builder.step ⟨[], none⟩ with
  | some ⟨[], built⟩ => built
  | _ => none

end Json

/-! ## The value that is built -/

namespace Data

variable {d : Data} {b : Json.Builder} {outer : List Json.Open} {built : Option Json}

/-- Elements that are told are put into the array that has been begun. -/
theorem foldlM_items {ds : List Data}
    (hitems : ∀ d ∈ ds, ∀ b : Json.Builder,
      (d.calls spell).foldlM Json.Builder.step b = b.put d.toJson) (items : List Json) :
    (ds.flatMap (Value.calls spell)).foldlM Json.Builder.step
        ⟨.array items :: outer, built⟩ =
      some ⟨.array (items ++ ds.map toJson) :: outer, built⟩ := by
  induction ds generalizing items with
  | nil => simp
  | cons d ds ih =>
      rw [List.flatMap_cons, List.foldlM_append, hitems d List.mem_cons_self, Json.Builder.put,
        Option.bind_eq_bind, Option.bind_some,
        ih (fun d hd => hitems d (List.mem_cons_of_mem _ hd)), List.map_cons, List.append_assoc,
        List.singleton_append]

/-- Members that are told are put into the object that has been begun. -/
theorem foldlM_members {ms : Table Data}
    (hmembers : ∀ m ∈ ms, ∀ b : Json.Builder,
      (m.2.calls spell).foldlM Json.Builder.step b = b.put m.2.toJson) (members : Table Json) :
    (ms.flatMap fun m => Call.key m.1 :: m.2.calls spell).foldlM Json.Builder.step
        ⟨.object members none :: outer, built⟩ =
      some ⟨.object ((ms.map fun m => (m.1, toJson m.2)).foldl
        (fun t m => Table.insert t m.1 m.2) members) none :: outer, built⟩ := by
  induction ms generalizing members with
  | nil => rfl
  | cons m ms ih =>
      rw [List.flatMap_cons, List.cons_append, List.foldlM_cons, Json.Builder.step,
        Option.bind_eq_bind, Option.bind_some, List.foldlM_append,
        hmembers m List.mem_cons_self, Json.Builder.put, Option.bind_eq_bind, Option.bind_some,
        ih (fun m hm => hmembers m (List.mem_cons_of_mem _ hm)), List.map_cons, List.foldl_cons]

theorem foldlM_call (b : Json.Builder) (call : Call) :
    [call].foldlM Json.Builder.step b = b.step call := by
  simp

/-- A map to which the renderings of members are added one by one holds them in their order. -/
theorem ofList_toJson {ms : Table Data} (hkeys : (Table.keys ms).Nodup) :
    Table.ofList (ms.map fun m => (m.1, toJson m.2)) = ms.map fun m => (m.1, toJson m.2) := by
  refine Table.ofList_of_nodup ?_
  rw [Table.keys_map]
  exact hkeys

/-- The calls for data build its rendering, wherever that is due. -/
theorem foldlM_calls (hd : d.Tabular) (b : Json.Builder) :
    (d.calls spell).foldlM Json.Builder.step b = b.put d.toJson := by
  induction d using Value.induction generalizing b with
  | null => exact foldlM_call b _
  | bool x => exact foldlM_call b _
  | number n => exact foldlM_call b _
  | string s => exact foldlM_call b _
  | atom t => exact foldlM_call b _
  | array ds ih =>
      rw [Value.tabular_array] at hd
      rw [Value.calls, Value.callsOfItems_eq, List.foldlM_cons, Json.Builder.step,
        Option.bind_eq_bind, Option.bind_some, List.foldlM_append,
        foldlM_items fun d hmem => ih d hmem (hd d hmem), Option.bind_eq_bind, Option.bind_some,
        foldlM_call, toJson, Value.graft_array]
      rfl
  | object ms ih =>
      rw [Value.tabular_object] at hd
      -- no key comes twice, so each member is put at the end
      have hbuilt := ofList_toJson hd.1
      rw [Table.ofList] at hbuilt
      rw [Value.calls, Value.callsOfMembers_eq, List.foldlM_cons, Json.Builder.step,
        Option.bind_eq_bind, Option.bind_some, List.foldlM_append,
        foldlM_members fun m hmem => ih m hmem (hd.2 m hmem), Option.bind_eq_bind,
        Option.bind_some, foldlM_call, hbuilt, toJson, Value.graft_object]
      rfl

/-- So a writer that builds a value comes to the rendering. -/
theorem ofCalls?_calls (hd : d.Tabular) : Json.ofCalls? (d.calls spell) = some d.toJson := by
  rw [Json.ofCalls?, foldlM_calls hd]
  rfl

/-- A visitor who reads any value at all comes to it too. -/
theorem visit_visitor (hd : d.Tabular) : d.visit spell Json.visitor = d.toJson := by
  induction d using Value.induction with
  | null => rfl
  | bool b => rfl
  | number n => rfl
  | string s => rfl
  | atom t => rfl
  | array ds ih =>
      rw [Value.tabular_array] at hd
      rw [Value.visit, Value.visitItems_eq_map, toJson, Value.graft_array]
      exact congrArg Value.array (List.map_congr_left fun d hmem => ih d hmem (hd d hmem))
  | object ms ih =>
      rw [Value.tabular_object] at hd
      have hmembers : (ms.map fun m => (m.1, m.2.visit spell Json.visitor)) =
          ms.map fun m => (m.1, toJson m.2) :=
        List.map_congr_left fun m hmem => Prod.ext rfl (ih m hmem (hd.2 m hmem))
      rw [Value.visit, Value.visitMembers_eq_map, hmembers, toJson, Value.graft_object]
      exact congrArg Value.object (ofList_toJson hd.1)

end Data

/-! ## Leaves replaced by their texts

Whatever is done with a value that has its leaves spelled as texts is done with the value in which
the texts stand for the leaves. -/

namespace Value

variable {spell : α → String} {spell' : β → String} {f : α → Value β}

theorem calls_graft (hf : ∀ a, (f a).calls spell' = [.text (spell a)]) (v : Value α) :
    (v.graft f).calls spell' = v.calls spell := by
  induction v using Value.induction with
  | null => rfl
  | bool b => rfl
  | number n => rfl
  | string s => rfl
  | atom a => exact hf a
  | array vs ih =>
      rw [graft_array, calls, calls, callsOfItems_eq, callsOfItems_eq, List.flatMap_map,
        List.length_map, List.flatMap_congr ih]
  | object ms ih =>
      rw [graft_object, calls, calls, callsOfMembers_eq, callsOfMembers_eq, List.flatMap_map,
        List.length_map]
      congr 2
      exact List.flatMap_congr fun m hm => congrArg (Call.key m.1 :: ·) (ih m hm)

theorem visit_graft {γ : Type} {visitor : Visitor γ}
    (hf : ∀ a, (f a).visit spell' visitor = visitor.text (spell a)) (v : Value α) :
    (v.graft f).visit spell' visitor = v.visit spell visitor := by
  induction v using Value.induction with
  | null => rfl
  | bool b => rfl
  | number n => rfl
  | string s => rfl
  | atom a => exact hf a
  | array vs ih =>
      rw [graft_array, visit, visit, visitItems_eq_map, visitItems_eq_map, List.map_map]
      exact congrArg visitor.array (List.map_congr_left ih)
  | object ms ih =>
      rw [graft_object, visit, visit, visitMembers_eq_map, visitMembers_eq_map, List.map_map]
      exact congrArg visitor.object (List.map_congr_left fun m hm => Prod.ext rfl (ih m hm))

theorem compactItems_eq_map (items : List (Value α)) :
    Json.Writer.compactItems spell items = items.map (Json.Writer.compact spell) := by
  induction items with
  | nil => rfl
  | cons v rest ih => rw [Json.Writer.compactItems, ih, List.map_cons]

theorem compactMembers_eq_map (members : List (String × Value α)) :
    Json.Writer.compactMembers spell members =
      members.map fun m => Json.Writer.quote m.1 ++ ':' :: Json.Writer.compact spell m.2 := by
  induction members with
  | nil => rfl
  | cons m rest ih => rw [Json.Writer.compactMembers, ih, List.map_cons]

theorem compact_graft
    (hf : ∀ a, Json.Writer.compact spell' (f a) = Json.Writer.quote (spell a)) (v : Value α) :
    Json.Writer.compact spell' (v.graft f) = Json.Writer.compact spell v := by
  induction v using Value.induction with
  | null => rfl
  | bool b => rfl
  | number n => rfl
  | string s => rfl
  | atom a => exact hf a
  | array vs ih =>
      have hitems : Json.Writer.compactItems spell' (vs.map (graft f)) =
          Json.Writer.compactItems spell vs := by
        rw [compactItems_eq_map, compactItems_eq_map, List.map_map]
        exact List.map_congr_left ih
      rw [graft_array, Json.Writer.compact, Json.Writer.compact, hitems]
  | object ms ih =>
      have hmembers : Json.Writer.compactMembers spell' (ms.map fun m => (m.1, graft f m.2)) =
          Json.Writer.compactMembers spell ms := by
        rw [compactMembers_eq_map, compactMembers_eq_map, List.map_map]
        exact List.map_congr_left fun m hm => by rw [Function.comp_apply, ih m hm]
      rw [graft_object, Json.Writer.compact, Json.Writer.compact, hmembers]

theorem pretty_graft
    (hf : ∀ a level, Json.Writer.pretty spell' level (f a) = Json.Writer.quote (spell a))
    (v : Value α) (level : Nat) :
    Json.Writer.pretty spell' level (v.graft f) = Json.Writer.pretty spell level v := by
  induction v using Value.induction generalizing level with
  | null => rfl
  | bool b => rfl
  | number n => rfl
  | string s => rfl
  | atom a => exact hf a level
  | array vs ih =>
      have hitems : Json.Writer.prettyItems spell' (level + 1) (vs.map (graft f)) =
          Json.Writer.prettyItems spell (level + 1) vs := by
        rw [Json.Reader.prettyItems_eq_map, Json.Reader.prettyItems_eq_map, List.map_map]
        exact List.map_congr_left fun v hv => ih v hv (level + 1)
      rw [graft_array, Json.Writer.pretty, Json.Writer.pretty, hitems]
  | object ms ih =>
      have hmembers :
          Json.Writer.prettyMembers spell' (level + 1) (ms.map fun m => (m.1, graft f m.2)) =
            Json.Writer.prettyMembers spell (level + 1) ms := by
        rw [Json.Reader.prettyMembers_eq_map, Json.Reader.prettyMembers_eq_map, List.map_map]
        exact List.map_congr_left fun m hm => by rw [Function.comp_apply, ih m hm (level + 1)]
      rw [graft_object, Json.Writer.pretty, Json.Writer.pretty, hmembers]

end Value

/-! ## Leaves -/

namespace Value

mutual

/-- The leaves in a value, from left to right. -/
def atoms : Value α → List α
  | atom a => [a]
  | array items => atomsOfItems items
  | object members => atomsOfMembers members
  | _ => []

/-- The leaves in several values. -/
def atomsOfItems : List (Value α) → List α
  | [] => []
  | v :: rest => atoms v ++ atomsOfItems rest

/-- The leaves in the members of an object. -/
def atomsOfMembers : List (String × Value α) → List α
  | [] => []
  | (_, v) :: rest => atoms v ++ atomsOfMembers rest

end

theorem atoms_array_eq_nil_iff {items : List (Value α)} :
    (array items).atoms = [] ↔ ∀ v ∈ items, v.atoms = [] := by
  rw [atoms]
  induction items with
  | nil => simp [atomsOfItems]
  | cons v rest ih => rw [atomsOfItems, List.append_eq_nil_iff, ih, List.forall_mem_cons]

theorem atoms_object_eq_nil_iff {members : List (String × Value α)} :
    (object members).atoms = [] ↔ ∀ m ∈ members, m.2.atoms = [] := by
  rw [atoms]
  induction members with
  | nil => simp [atomsOfMembers]
  | cons m rest ih => rw [atomsOfMembers, List.append_eq_nil_iff, ih, List.forall_mem_cons]

end Value

/-- There are no instants in what is lifted. -/
theorem Json.atoms_lift (v : Json) : v.lift.atoms = [] := by
  induction v using Value.induction with
  | null => rfl
  | bool b => rfl
  | number n => rfl
  | string s => rfl
  | atom a => exact a.elim
  | array vs ih =>
      rw [lift_array, Value.atoms_array_eq_nil_iff, List.forall_mem_map]
      exact ih
  | object ms ih =>
      rw [lift_object, Value.atoms_object_eq_nil_iff, List.forall_mem_map]
      exact ih

/-- What is reordered holds no instants if the original holds none. -/
theorem Reordered.atoms_eq_nil {v w : Data} (h : Reordered v w) (hv : v.atoms = []) :
    w.atoms = [] := by
  induction h with
  | null => rfl
  | bool b => rfl
  | number n => rfl
  | string s => rfl
  | atom t => cases hv
  | @array items others hlength _ ih =>
      rw [Value.atoms_array_eq_nil_iff] at hv ⊢
      intro w hw
      have hpairs : List.Forall₂ (fun v w => v.atoms = [] → w.atoms = []) items others :=
        List.forall₂_iff_zip.2 ⟨hlength, fun {v w} hvw => ih v w hvw⟩
      obtain ⟨v, hv', hvw⟩ := exists_mem_zip_of_forall₂ hpairs.flip hw
      exact hvw (hv v (List.of_mem_zip hv').2)
  | @object members others hdistinct hkeys _ ih =>
      rw [Value.atoms_object_eq_nil_iff] at hv ⊢
      intro n hn
      have hmem : n.1 ∈ Table.keys members := hkeys.mem_iff.2 (Table.mem_keys_of_mem hn)
      obtain ⟨v, hfind⟩ := Table.exists_find?_of_mem_keys hmem
      exact ih n.1 v n.2 hfind (Table.find?_of_mem (hkeys.nodup_iff.1 hdistinct) hn)
        (hv (n.1, v) (Table.mem_of_find? hfind))

namespace Data

/-- Lifting the rendering of data gives the data back exactly if it holds no instants. -/
theorem lift_toJson_eq_self_iff {d : Data} : d.toJson.lift = d ↔ d.atoms = [] := by
  constructor
  · intro h
    rw [← h]
    exact Json.atoms_lift _
  · intro h
    induction d using Value.induction with
    | null => rfl
    | bool b => rfl
    | number n => rfl
    | string s => rfl
    | atom t => cases h
    | array ds ih =>
        rw [Value.atoms_array_eq_nil_iff] at h
        rw [toJson, Value.graft_array, Json.lift_array, List.map_map]
        exact congrArg Value.array
          ((List.map_congr_left fun d hd => ih d hd (h d hd)).trans (List.map_id ds))
    | object ms ih =>
        rw [Value.atoms_object_eq_nil_iff] at h
        rw [toJson, Value.graft_object, Json.lift_object, List.map_map]
        refine congrArg Value.object
          ((List.map_congr_left fun m hm => ?_).trans (List.map_id ms))
        exact Prod.ext rfl (ih m hm (h m hm))

theorem tabular_toJson {d : Data} (hd : d.Tabular) : d.toJson.Tabular := by
  induction d using Value.induction with
  | null => trivial
  | bool b => trivial
  | number n => trivial
  | string s => trivial
  | atom t => trivial
  | array ds ih =>
      rw [Value.tabular_array] at hd
      rw [toJson, Value.graft_array, Value.tabular_array, List.forall_mem_map]
      exact fun d hmem => ih d hmem (hd d hmem)
  | object ms ih =>
      rw [Value.tabular_object] at hd
      rw [toJson, Value.graft_object, Value.tabular_object, Table.keys_map, List.forall_mem_map]
      exact ⟨hd.1, fun m hmem => ih m hmem (hd.2 m hmem)⟩

/-! ## All renderings agree -/

/-- Every way in which data becomes JSON comes to this value or its text. -/
structure Renders (d : Data) (v : Json) : Prop where
  rendered : d.toJson = v
  told : Json.ofCalls? (d.calls spell) = some v
  shown : d.visit spell Json.visitor = v
  read : Form.json.read d = .ok v
  compact : d.compact = v.compact
  pretty : d.pretty = v.pretty

theorem renders_toJson {d : Data} (hd : d.Tabular) : Renders d d.toJson where
  rendered := rfl
  told := ofCalls?_calls hd
  shown := visit_visitor hd
  read := rfl
  compact := congrArg String.ofList (Value.compact_graft (fun _ => rfl) d).symm
  pretty := congrArg String.ofList (Value.pretty_graft (fun _ _ => rfl) d 0).symm

theorem calls_toJson (d : Data) : d.toJson.calls Empty.elim = d.calls spell :=
  Value.calls_graft (fun _ => rfl) d

theorem calls_lift (v : Json) : v.lift.calls spell = v.calls Empty.elim :=
  Value.calls_graft (fun a => a.elim) v

theorem visit_toJson (visitor : Visitor β) (d : Data) :
    d.toJson.visit Empty.elim visitor = d.visit spell visitor :=
  Value.visit_graft (fun _ => rfl) d

theorem visit_lift (visitor : Visitor β) (v : Json) :
    v.lift.visit spell visitor = v.visit Empty.elim visitor :=
  Value.visit_graft (fun a => a.elim) v

/-- The engine writes an instant as every rendering does. -/
theorem convert_atom (r : Registry) (t : Instant) (site : Site) :
    Engine.convert r .toWire (some (.atom t)) site (.kind .timestamp) =
      .ok (some (.string (spell t))) := by
  rw [Engine.convert_eq_convertUnder, Engine.convertUnder_timestamp_eq_ok_iff]
  refine .inr ⟨t.truncate, rfl, ?_⟩
  rw [Engine.placeInstant, Instant.spell_truncate]

/-- All renderings of data are one JSON value. What is lifted from it holds no instants and is
rendered alike, and it is the data itself, be it up to the order of keys, exactly if the data holds
no instants. An instant is rendered as the engine writes it. -/
theorem renderings_agree (d : Data) (hd : d.Tabular) :
    Renders d d.toJson ∧
      (d.toJson.lift.atoms = [] ∧ Renders d.toJson.lift d.toJson ∧
        d.toJson.lift.calls spell = d.calls spell ∧
        ∀ (β : Type) (visitor : Visitor β),
          d.toJson.lift.visit spell visitor = d.visit spell visitor) ∧
      ((d.toJson.lift = d ↔ d.atoms = []) ∧ (Reordered d.toJson.lift d → d.atoms = [])) ∧
      ∀ (t : Instant) (r : Registry) (site : Site),
        Renders (.atom t) (.string (spell t)) ∧
          Engine.convert r .toWire (some (.atom t)) site (.kind .timestamp) =
            .ok (some (.string (spell t))) := by
  have hlift : d.toJson.lift.Tabular := Json.tabular_lift.2 (tabular_toJson hd)
  have hrenders := renders_toJson hlift
  rw [Json.toJson_lift] at hrenders
  refine ⟨renders_toJson hd, ⟨Json.atoms_lift _, hrenders, ?_, fun β visitor => ?_⟩,
    ⟨lift_toJson_eq_self_iff, fun h => h.atoms_eq_nil (Json.atoms_lift _)⟩, fun t r site => ?_⟩
  · rw [calls_lift, calls_toJson]
  · rw [visit_lift, visit_toJson]
  · exact ⟨renders_toJson trivial, convert_atom r t site⟩

/-- A leap second, and an instant before 1970 with less than a millisecond in its fraction. -/
def nested : Data :=
  .object [("z", .atom ⟨1435708799, 1500000001, by decide, by decide, by decide, by decide⟩),
    ("a", .array [.null, .object [("", .atom ⟨-2, 999999, by decide, by decide, by decide,
      by decide⟩)]])]

/-- Its keys keep their order, and the instants are lost as instants: all renderings make the same
text of them, to the millisecond, and a leap second shows as one. -/
theorem nested_renderings_agree :
    nested.compact =
        "\x7b\"z\":\"2015-06-30T23:59:60.500Z\",\"a\":" ++
          "[null,\x7b\"\":\"1969-12-31T23:59:58.000Z\"\x7d]\x7d" ∧
      Renders nested nested.toJson ∧ Renders nested.toJson.lift nested.toJson ∧
      nested.toJson.lift ≠ nested ∧ ¬ Reordered nested.toJson.lift nested := by
  obtain ⟨hrenders, ⟨-, hlifted, -, -⟩, ⟨heq, hreordered⟩, -⟩ :=
    renderings_agree nested (by decide +kernel)
  have hatoms : nested.atoms ≠ [] := by
    intro h
    cases h
  exact ⟨by decide +kernel, hrenders, hlifted, fun h => hatoms (heq.1 h),
    fun h => hatoms (hreordered h)⟩

end Data

end Agenda
