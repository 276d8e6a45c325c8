/-
The two tables of names of an object.

Every conversion of an object goes by a table from the names of one side to those of the other. The
table is built by putting in one property after the other, so a name that comes twice keeps the
place of its first property and leads to its last. Where no name comes twice on either side, nothing
is replaced: the table is the list of the properties, and the tables of the two directions undo each
other. Nothing here is about values.
-/
import Agenda.Proofs.Conversion.Object
import Mathlib.Data.List.Indexes

set_option autoImplicit false

namespace Agenda.Engine

variable {d : Direction} {properties : List (Property Schema)}

/-! ## One table -/

/-- A table of names is faithful to properties whose names may be repeated. Each name that is looked
up has one entry, in the order of the first properties with these names, and the entry leads to the
last property with its name: it has the place of that property in the list and its other name. -/
structure Faithful (d : Direction) (properties : List (Property Schema))
    (names : Table (Renamed properties.length)) : Prop where
  mem_keys_iff : ∀ name, name ∈ Table.keys names ↔ name ∈ properties.map d.sourceName
  pairwise_keys : (Table.keys names).Pairwise fun a b =>
    (properties.map d.sourceName).idxOf a < (properties.map d.sourceName).idxOf b
  exists_property : ∀ entry ∈ names, ∃ p, properties[(entry.2.index : Nat)]? = some p ∧
    d.sourceName p = entry.1 ∧ d.targetName p = entry.2.target ∧
    entry.1 ∉ (properties.drop (entry.2.index + 1)).map d.sourceName

/-- Each place has the entry of the property there. -/
theorem getElem?_entries_eq_some_iff {i : Nat} {name : String}
    {renamed : Renamed properties.length} :
    (entries d properties (List.finRange properties.length))[i]? = some (name, renamed) ↔
      renamed.index = i ∧ d.sourceName (properties.get renamed.index) = name ∧
        d.targetName (properties.get renamed.index) = renamed.target := by
  obtain ⟨target, index⟩ := renamed
  rw [entries, List.getElem?_map, Option.map_eq_some_iff]
  constructor
  · rintro ⟨j, hj, hentry⟩
    obtain ⟨hlt, rfl⟩ := List.getElem?_eq_some_iff.1 hj
    rw [List.getElem_finRange] at hentry
    simp only [Prod.mk.injEq, Renamed.mk.injEq] at hentry
    obtain ⟨rfl, rfl, rfl⟩ := hentry
    exact ⟨rfl, rfl, rfl⟩
  · rintro ⟨rfl, rfl, htarget⟩
    obtain rfl : d.targetName (properties.get index) = target := htarget
    refine ⟨index, ?_, rfl⟩
    rw [List.getElem?_eq_getElem (by simp), List.getElem_finRange]
    rfl

/-- A name leads to the last property that is looked up by it. -/
theorem find?_renaming_eq_some_iff {name : String} {renamed : Renamed properties.length} :
    Table.find? (Renaming properties d) name = some renamed ↔
      d.sourceName (properties.get renamed.index) = name ∧
        d.targetName (properties.get renamed.index) = renamed.target ∧
        name ∉ (properties.drop (renamed.index + 1)).map d.sourceName := by
  rw [Renaming, Table.find?_ofList_eq_some_iff, ← entries, keys_entries]
  simp only [getElem?_entries_eq_some_iff, List.map_drop]
  constructor
  · rintro ⟨_, ⟨rfl, hsource, htarget⟩, hlast⟩
    exact ⟨hsource, htarget, hlast⟩
  · rintro ⟨hsource, htarget, hlast⟩
    exact ⟨_, ⟨rfl, hsource, htarget⟩, hlast⟩

theorem faithful_renaming (d : Direction) (properties : List (Property Schema)) :
    Faithful d properties (Renaming properties d) where
  mem_keys_iff name := by
    rw [Renaming, Table.mem_keys_ofList, ← entries, keys_entries]
  pairwise_keys := by
    have hkeys := Table.pairwise_keys_ofList
      (entries d properties (List.finRange properties.length))
    rwa [keys_entries] at hkeys
  exists_property entry hentry := by
    have hfind := Table.find?_of_mem (Table.nodup_keys_ofList _) hentry
    obtain ⟨hsource, htarget, hlast⟩ := find?_renaming_eq_some_iff.1 hfind
    exact ⟨_, List.getElem?_eq_getElem _, hsource, htarget, hlast⟩

/-! ## The tables of both directions -/

/-- Under distinct names a name leads to the only property that is looked up by it. -/
theorem find?_renaming_of_nodup (h : (properties.map d.sourceName).Nodup) {name : String}
    {renamed : Renamed properties.length} :
    Table.find? (Renaming properties d) name = some renamed ↔
      d.sourceName (properties.get renamed.index) = name ∧
        d.targetName (properties.get renamed.index) = renamed.target := by
  have hkeys : Table.keys (entries d properties (List.finRange properties.length)) =
      properties.map d.sourceName := keys_entries
  rw [renaming_of_nodup h]
  constructor
  · intro hfind
    obtain ⟨i, -, rfl, rfl⟩ := List.mem_map.1 (Table.mem_of_find? hfind)
    exact ⟨rfl, rfl⟩
  · obtain ⟨target, index⟩ := renamed
    rintro ⟨rfl, htarget⟩
    obtain rfl : d.targetName (properties.get index) = target := htarget
    exact Table.find?_of_mem (hkeys ▸ h) (List.mem_map.2 ⟨index, List.mem_finRange _, rfl⟩)

/-- Two tables undo each other: what a name leads to leads back to it, by the same property. -/
def Inverse {n : Nat} (forth back : Table (Renamed n)) : Prop :=
  ∀ name other index, Table.find? forth name = some ⟨other, index⟩ ↔
    Table.find? back other = some ⟨name, index⟩

/-- A table of names is the list of the properties in the order of their declaration. -/
def InOrder (d : Direction) (properties : List (Property Schema))
    (names : Table (Renamed properties.length)) : Prop :=
  names.map (fun entry => (entry.1, entry.2.target, (entry.2.index : Nat))) =
    properties.mapIdx fun i p => (d.sourceName p, d.targetName p, i)

theorem inverse_renaming (hwire : (properties.map Property.wireName).Nodup)
    (hinternal : (properties.map Property.internalName).Nodup) :
    Inverse (Renaming properties .toInternal) (Renaming properties .toWire) := by
  intro name other index
  rw [find?_renaming_of_nodup (d := .toInternal) hwire,
    find?_renaming_of_nodup (d := .toWire) hinternal]
  exact and_comm

theorem inOrder_renaming (h : (properties.map d.sourceName).Nodup) :
    InOrder d properties (Renaming properties d) := by
  rw [InOrder, renaming_of_nodup h, entries, List.map_map, List.mapIdx_eq_ofFn, List.ofFn_eq_map]
  rfl

/-- The table of each direction is faithful to any properties; and if no name comes twice on either
side, the tables of both directions are inverse to each other and list the properties in order. -/
theorem renaming_exact (properties : List (Property Schema)) :
    (∀ d, Faithful d properties (Renaming properties d)) ∧
      ((properties.map Property.wireName).Nodup →
        (properties.map Property.internalName).Nodup →
          Inverse (Renaming properties .toInternal) (Renaming properties .toWire) ∧
            ∀ d, InOrder d properties (Renaming properties d)) := by
  refine ⟨fun d => faithful_renaming d properties, ?_⟩
  intro hwire hinternal
  refine ⟨inverse_renaming hwire hinternal, ?_⟩
  intro d
  cases d with
  | toInternal => exact inOrder_renaming hwire
  | toWire => exact inOrder_renaming hinternal

/-- Some properties of a homework item: their names on the wire and in a converted document. -/
def itemNames : List (Property Schema) :=
  [⟨"$type", "type", .kind .string⟩, ⟨"datumTijd", "datum_tijd", .kind .timestamp⟩,
    .plain "sortering" (.kind .number)]

/-- No name comes twice, so each leads back to where it came from, and the order is that of the
properties. -/
theorem itemNames_renaming_exact :
    Inverse (Renaming itemNames .toInternal) (Renaming itemNames .toWire) ∧
      Table.find? (Renaming itemNames .toWire) "datum_tijd" = some ⟨"datumTijd", ⟨1, by decide⟩⟩ ∧
      InOrder .toWire itemNames (Renaming itemNames .toWire) := by
  have hexact := (renaming_exact itemNames).2 (by decide) (by decide)
  refine ⟨hexact.1, ?_, hexact.2 .toWire⟩
  exact (hexact.1 "datumTijd" "datum_tijd" ⟨1, by decide⟩).1 (by decide)

/-- Two properties with one wire name: the place is that of the first, the rest of the last one. -/
example : (Renaming [⟨"a", "x", .kind .string⟩, ⟨"b", "y", .kind .number⟩,
    ⟨"a", "z", Schema.kind .boolean⟩] .toInternal).map (fun e => (e.1, e.2.target, e.2.index.val)) =
    [("a", "z", 2), ("b", "y", 1)] := by decide

end Agenda.Engine
