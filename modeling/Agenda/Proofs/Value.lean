/-
Trees of values, taken apart.

Proofs about trees go by one induction: a statement holds of every value as soon as it holds of
the leaves, of an array whose elements have it and of an object whose members have it. On top of it
stand four notions that the statements about documents need: how deep a value nests, which numbers
stand in it, whether its objects are tables, and the value with its numbers replaced.
-/
import Agenda.Data
import Agenda.Proofs.Table

set_option autoImplicit false

namespace Agenda

namespace Value

variable {α β : Type}

/-! ## Induction -/

/-- What holds of the leaves, of an array if it holds of its elements, and of an object if it holds
of its members, holds of every value. The recursor asks for motives about lists and pairs as well;
this is the form in which proofs about trees are written. -/
@[induction_eliminator, elab_as_elim]
theorem induction {motive : Value α → Prop} (null : motive null) (bool : ∀ b, motive (bool b))
    (number : ∀ n, motive (number n)) (string : ∀ s, motive (string s))
    (atom : ∀ a, motive (atom a))
    (array : ∀ items, (∀ v ∈ items, motive v) → motive (array items))
    (object : ∀ members, (∀ m ∈ members, motive m.2) → motive (object members))
    (v : Value α) : motive v :=
  -- the motives of a list of elements, a list of members and a member
  @Value.rec α motive (fun items => ∀ v ∈ items, motive v)
    (fun members => ∀ m ∈ members, motive m.2) (fun m => motive m.2)
    null bool number string atom (fun items ih => array items ih)
    (fun members ih => object members ih)
    (fun v hv => absurd hv (by simp))
    (fun v rest hv hrest u hu => by
      rcases List.mem_cons.1 hu with rfl | hu
      · exact hv
      · exact hrest u hu)
    (fun m hm => absurd hm (by simp))
    (fun m rest hm hrest n hn => by
      rcases List.mem_cons.1 hn with rfl | hn
      · exact hm
      · exact hrest n hn)
    (fun _ _ hv => hv) v

/-! ## Nesting -/

mutual

/-- How many arrays and objects stand inside one another at the deepest place. -/
def depth : Value α → Nat
  | array items => depthOfItems items + 1
  | object members => depthOfMembers members + 1
  | _ => 0

/-- The greatest depth of several values. -/
def depthOfItems : List (Value α) → Nat
  | [] => 0
  | v :: rest => max (depth v) (depthOfItems rest)

/-- The greatest depth of the members of an object. -/
def depthOfMembers : List (String × Value α) → Nat
  | [] => 0
  | (_, v) :: rest => max (depth v) (depthOfMembers rest)

end

/-- A bound on the depth of several values is one on each of them. The walks are recursive because
the values are nested; proofs use these two statements and never the walks. -/
theorem depthOfItems_le {items : List (Value α)} {k : Nat} :
    depthOfItems items ≤ k ↔ ∀ v ∈ items, v.depth ≤ k := by
  induction items with
  | nil => simp [depthOfItems]
  | cons v rest ih => rw [depthOfItems, Nat.max_le, ih, List.forall_mem_cons]

theorem depthOfMembers_le {members : List (String × Value α)} {k : Nat} :
    depthOfMembers members ≤ k ↔ ∀ m ∈ members, m.2.depth ≤ k := by
  induction members with
  | nil => simp [depthOfMembers]
  | cons m rest ih => rw [depthOfMembers, Nat.max_le, ih, List.forall_mem_cons]

/-- An array nests at most so deep if its elements nest one level less. The reader has a limit to
its depth and takes one off it for each bracket, which is why the bound is on this side. -/
theorem depth_array_le {items : List (Value α)} {k : Nat} :
    (array items).depth ≤ k ↔ 0 < k ∧ ∀ v ∈ items, v.depth ≤ k - 1 := by
  rw [← depthOfItems_le, depth]
  omega

/-- The same for the members of an object. -/
theorem depth_object_le {members : List (String × Value α)} {k : Nat} :
    (object members).depth ≤ k ↔ 0 < k ∧ ∀ m ∈ members, m.2.depth ≤ k - 1 := by
  rw [← depthOfMembers_le, depth]
  omega

/-! ## Numbers -/

mutual

/-- The numbers in a value, from left to right. -/
def numbers : Value α → List Number
  | number n => [n]
  | array items => numbersOfItems items
  | object members => numbersOfMembers members
  | _ => []

/-- The numbers in several values. -/
def numbersOfItems : List (Value α) → List Number
  | [] => []
  | v :: rest => numbers v ++ numbersOfItems rest

/-- The numbers in the members of an object. -/
def numbersOfMembers : List (String × Value α) → List Number
  | [] => []
  | (_, v) :: rest => numbers v ++ numbersOfMembers rest

end

theorem mem_numbersOfItems {items : List (Value α)} {n : Number} :
    n ∈ numbersOfItems items ↔ ∃ v ∈ items, n ∈ v.numbers := by
  induction items with
  | nil => simp [numbersOfItems]
  | cons v rest ih => simp [numbersOfItems, ih]

theorem mem_numbersOfMembers {members : List (String × Value α)} {n : Number} :
    n ∈ numbersOfMembers members ↔ ∃ m ∈ members, n ∈ m.2.numbers := by
  induction members with
  | nil => simp [numbersOfMembers]
  | cons m rest ih => simp [numbersOfMembers, ih]

/-- A number stands in an array if it stands in an element of it. Statements about all numbers of a
document are carried through the tree by this and its counterpart for objects. -/
theorem mem_numbers_array {items : List (Value α)} {n : Number} :
    n ∈ (array items).numbers ↔ ∃ v ∈ items, n ∈ v.numbers := by
  rw [numbers, mem_numbersOfItems]

theorem mem_numbers_object {members : List (String × Value α)} {n : Number} :
    n ∈ (object members).numbers ↔ ∃ m ∈ members, n ∈ m.2.numbers := by
  rw [numbers, mem_numbersOfMembers]

mutual

/-- The value with every number replaced. What is read for a number need not be the number that was
written, so what is read for a value is the value with its numbers replaced by their rereadings. -/
def renumber (f : Number → Number) : Value α → Value α
  | number n => number (f n)
  | array items => array (renumberItems f items)
  | object members => object (renumberMembers f members)
  | v => v

/-- The same for each element of an array. -/
def renumberItems (f : Number → Number) : List (Value α) → List (Value α)
  | [] => []
  | v :: rest => renumber f v :: renumberItems f rest

/-- The same for each member of an object. -/
def renumberMembers (f : Number → Number) : List (String × Value α) → List (String × Value α)
  | [] => []
  | (k, v) :: rest => (k, renumber f v) :: renumberMembers f rest

end

/-- The walk over the elements is an ordinary map, which has lemmas of its own. -/
theorem renumberItems_eq_map (f : Number → Number) (items : List (Value α)) :
    renumberItems f items = items.map (renumber f) := by
  induction items with
  | nil => rfl
  | cons v rest ih => rw [renumberItems, ih, List.map_cons]

theorem renumberMembers_eq_map (f : Number → Number) (members : List (String × Value α)) :
    renumberMembers f members = members.map fun m => (m.1, renumber f m.2) := by
  induction members with
  | nil => rfl
  | cons m rest ih => rw [renumberMembers, ih, List.map_cons]

@[simp] theorem renumber_array (f : Number → Number) (items : List (Value α)) :
    (array items).renumber f = array (items.map (renumber f)) := by
  rw [renumber, renumberItems_eq_map]

@[simp] theorem renumber_object (f : Number → Number) (members : List (String × Value α)) :
    (object members).renumber f = object (members.map fun m => (m.1, renumber f m.2)) := by
  rw [renumber, renumberMembers_eq_map]

private theorem map_eq_self_iff {γ : Type} {f : γ → γ} {l : List γ} :
    l.map f = l ↔ ∀ a ∈ l, f a = a := by
  induction l with
  | nil => simp
  | cons a l ih => simp [ih]

/-- A value stays the same exactly when each of its numbers does. So a document is read back
unchanged exactly if each number in it is. -/
theorem renumber_eq_self_iff {f : Number → Number} {v : Value α} :
    v.renumber f = v ↔ ∀ n ∈ v.numbers, f n = n := by
  induction v with
  | null => simp [renumber, numbers]
  | bool b => simp [renumber, numbers]
  | number n => simp [renumber, numbers]
  | string s => simp [renumber, numbers]
  | atom a => simp [renumber, numbers]
  | array items ih =>
      rw [renumber_array, array.injEq, map_eq_self_iff]
      simp only [mem_numbers_array]
      constructor
      · rintro h n ⟨v, hv, hn⟩
        exact (ih v hv).1 (h v hv) n hn
      · exact fun h v hv => (ih v hv).2 fun n hn => h n ⟨v, hv, hn⟩
  | object members ih =>
      rw [renumber_object, object.injEq, map_eq_self_iff]
      simp only [mem_numbers_object]
      constructor
      · rintro h n ⟨m, hm, hn⟩
        exact (ih m hm).1 (congrArg Prod.snd (h m hm)) n hn
      · intro h m hm
        exact Prod.ext rfl ((ih m hm).2 fun n hn => h n ⟨m, hm, hn⟩)

/-- In particular if no number changes. -/
@[simp] theorem renumber_id (v : Value α) : v.renumber id = v :=
  renumber_eq_self_iff.2 fun _ _ => rfl

/-! ## Tables -/

mutual

/-- No object gives a key twice. Data that the program holds is of this kind, because its maps are;
a list of pairs alone would allow more. -/
def Tabular : Value α → Prop
  | array items => TabularItems items
  | object members => (Table.keys members).Nodup ∧ TabularMembers members
  | _ => True

/-- The same for several values. -/
def TabularItems : List (Value α) → Prop
  | [] => True
  | v :: rest => Tabular v ∧ TabularItems rest

/-- The same for the members of an object. -/
def TabularMembers : List (String × Value α) → Prop
  | [] => True
  | (_, v) :: rest => Tabular v ∧ TabularMembers rest

end

mutual

/-- Whether a value is made of tables can be computed. -/
def decidableTabular : (v : Value α) → Decidable v.Tabular
  | null => .isTrue trivial
  | bool _ => .isTrue trivial
  | number _ => .isTrue trivial
  | string _ => .isTrue trivial
  | atom _ => .isTrue trivial
  | array items => decidableTabularItems items
  | object members => @instDecidableAnd _ _ inferInstance (decidableTabularMembers members)

/-- The same for several values. -/
def decidableTabularItems : (items : List (Value α)) → Decidable (TabularItems items)
  | [] => .isTrue trivial
  | v :: rest => @instDecidableAnd _ _ (decidableTabular v) (decidableTabularItems rest)

/-- The same for the members of an object. -/
def decidableTabularMembers :
    (members : List (String × Value α)) → Decidable (TabularMembers members)
  | [] => .isTrue trivial
  | (_, v) :: rest => @instDecidableAnd _ _ (decidableTabular v) (decidableTabularMembers rest)

end

instance : DecidablePred (Tabular : Value α → Prop) := decidableTabular

/-- In terms of membership, which is how the walks are left again. -/
@[simp] theorem tabular_array {items : List (Value α)} :
    (array items).Tabular ↔ ∀ v ∈ items, v.Tabular := by
  rw [Tabular]
  induction items with
  | nil => simp [TabularItems]
  | cons v rest ih => simp [TabularItems, ih]

@[simp] theorem tabular_object {members : List (String × Value α)} :
    (object members).Tabular ↔ (Table.keys members).Nodup ∧ ∀ m ∈ members, m.2.Tabular := by
  have hmembers : TabularMembers members ↔ ∀ m ∈ members, m.2.Tabular := by
    induction members with
    | nil => simp [TabularMembers]
    | cons m rest ih => simp [TabularMembers, ih]
  rw [Tabular, hmembers]

/-! ## Grafting -/

@[simp] theorem graft_array (f : α → Value β) (items : List (Value α)) :
    (array items).graft f = array (items.map (graft f)) := by
  rw [graft, graftItems_eq_map]

@[simp] theorem graft_object (f : α → Value β) (members : List (String × Value α)) :
    (object members).graft f = object (members.map fun m => (m.1, graft f m.2)) := by
  rw [graft, graftMembers_eq_map]

end Value

/-! ## JSON among data

JSON has no leaves of its own, so lifting changes nothing but the type: every measure of a value is
that of the lifted one. -/

namespace Json

@[simp] theorem lift_null : lift .null = .null := rfl

@[simp] theorem lift_bool (b : Bool) : lift (.bool b) = .bool b := rfl

@[simp] theorem lift_number (n : Number) : lift (.number n) = .number n := rfl

@[simp] theorem lift_string (s : String) : lift (.string s) = .string s := rfl

@[simp] theorem lift_array (items : List Json) :
    lift (.array items) = .array (items.map lift) := Value.graft_array _ items

@[simp] theorem lift_object (members : List (String × Json)) :
    lift (.object members) = .object (members.map fun m => (m.1, lift m.2)) :=
  Value.graft_object _ members

/-- What is lifted to an array was one. With its counterpart for objects this lets a proof that
follows the lifted value speak of the text that was read. -/
theorem exists_of_lift_eq_array {v : Json} {items : List Data} (h : v.lift = .array items) :
    ∃ vs : List Json, v = .array vs ∧ items = vs.map lift := by
  cases v with
  | array vs =>
      rw [lift_array] at h
      exact ⟨vs, rfl, (Value.array.inj h).symm⟩
  | atom a => exact a.elim
  | _ => cases h

theorem exists_of_lift_eq_object {v : Json} {members : Table Data} (h : v.lift = .object members) :
    ∃ ms : Table Json, v = .object ms ∧ members = ms.map fun m => (m.1, lift m.2) := by
  cases v with
  | object ms =>
      rw [lift_object] at h
      exact ⟨ms, rfl, (Value.object.inj h).symm⟩
  | atom a => exact a.elim
  | _ => cases h

/-- Rendering undoes lifting. Nothing is lost on the way into data, though data has more values than
JSON. -/
@[simp] theorem toJson_lift (v : Json) : v.lift.toJson = v := by
  induction v using Value.induction with
  | null => rfl
  | bool b => rfl
  | number n => rfl
  | string s => rfl
  | atom a => exact a.elim
  | array items ih =>
      rw [lift_array, Data.toJson, Value.graft_array, List.map_map]
      exact congrArg Value.array ((List.map_congr_left ih).trans (List.map_id items))
  | object members ih =>
      rw [lift_object, Data.toJson, Value.graft_object, List.map_map]
      refine congrArg Value.object
        ((List.map_congr_left fun m hm => ?_).trans (List.map_id members))
      exact Prod.ext rfl (ih m hm)

/-- Lifting keeps values apart, since it can be undone. -/
theorem lift_injective {v w : Json} (h : v.lift = w.lift) : v = w := by
  rw [← toJson_lift v, h, toJson_lift]

/-- Lifting leaves the numbers where they are. This and the next three carry the measures of a text
over to the data that is made of it. -/
theorem numbers_lift (v : Json) : v.lift.numbers = v.numbers := by
  induction v using Value.induction with
  | null => rfl
  | bool b => rfl
  | number n => rfl
  | string s => rfl
  | atom a => exact a.elim
  | array items ih =>
      rw [lift_array, Value.numbers, Value.numbers]
      induction items with
      | nil => rfl
      | cons v rest ihrest =>
          rw [List.map_cons, Value.numbersOfItems, Value.numbersOfItems, ih v List.mem_cons_self,
            ihrest fun u hu => ih u (List.mem_cons_of_mem _ hu)]
  | object members ih =>
      rw [lift_object, Value.numbers, Value.numbers]
      induction members with
      | nil => rfl
      | cons m rest ihrest =>
          rw [List.map_cons, Value.numbersOfMembers, Value.numbersOfMembers,
            ih m List.mem_cons_self, ihrest fun u hu => ih u (List.mem_cons_of_mem _ hu)]

theorem depth_lift_le {v : Json} {k : Nat} : v.lift.depth ≤ k ↔ v.depth ≤ k := by
  induction v using Value.induction generalizing k with
  | null => rfl
  | bool b => rfl
  | number n => rfl
  | string s => rfl
  | atom a => exact a.elim
  | array items ih =>
      rw [lift_array, Value.depth_array_le, Value.depth_array_le, List.forall_mem_map]
      exact and_congr_right fun _ => forall₂_congr fun v hv => ih v hv
  | object members ih =>
      rw [lift_object, Value.depth_object_le, Value.depth_object_le, List.forall_mem_map]
      exact and_congr_right fun _ => forall₂_congr fun m hm => ih m hm

theorem tabular_lift {v : Json} : v.lift.Tabular ↔ v.Tabular := by
  induction v using Value.induction with
  | null => rfl
  | bool b => rfl
  | number n => rfl
  | string s => rfl
  | atom a => exact a.elim
  | array items ih =>
      rw [lift_array, Value.tabular_array, Value.tabular_array, List.forall_mem_map]
      exact forall₂_congr fun v hv => ih v hv
  | object members ih =>
      rw [lift_object, Value.tabular_object, Value.tabular_object, List.forall_mem_map]
      exact and_congr (by rw [Table.keys_map]) (forall₂_congr fun m hm => ih m hm)

theorem renumber_lift (f : Number → Number) (v : Json) :
    lift (v.renumber f) = v.lift.renumber f := by
  induction v using Value.induction with
  | null => rfl
  | bool b => rfl
  | number n => rfl
  | string s => rfl
  | atom a => exact a.elim
  | array items ih =>
      rw [Value.renumber_array, lift_array, lift_array, Value.renumber_array, List.map_map,
        List.map_map]
      exact congrArg Value.array (List.map_congr_left ih)
  | object members ih =>
      rw [Value.renumber_object, lift_object, lift_object, Value.renumber_object, List.map_map,
        List.map_map]
      exact congrArg Value.object (List.map_congr_left fun m hm => Prod.ext rfl (ih m hm))

end Json

/-! ## Parts, absent ones among them

A schema is asked about every declared key of an object, also about those that the object lacks. So
the parts of an object are its members and absence, and proofs about conversion go by induction over
these. -/

namespace Data

/-- What a conversion of a value may convert in turn. Absence is listed for every object, because a
schema may declare a key that the object lacks. -/
def parts : Option Data → List (Option Data)
  | some (.array items) => items.map some
  | some (.object members) => none :: members.map fun m => some m.2
  | _ => []

/-- Each element of an array is a part of it. -/
theorem mem_parts_of_mem_items {items : List Data} {v : Data} (h : v ∈ items) :
    some v ∈ parts (some (.array items)) := List.mem_map.2 ⟨v, h, rfl⟩

theorem mem_parts_of_mem_members {members : List (String × Data)} {m : String × Data}
    (h : m ∈ members) : some m.2 ∈ parts (some (.object members)) :=
  List.mem_cons_of_mem _ (List.mem_map.2 ⟨m, h, rfl⟩)

/-- Whatever stands under a key is a part of the object, absence included. -/
theorem find?_mem_parts (members : Table Data) (key : String) :
    Table.find? members key ∈ parts (some (.object members)) := by
  cases h : Table.find? members key with
  | none => exact List.mem_cons_self
  | some v => exact mem_parts_of_mem_members (Table.mem_of_find? h)

/-- What holds of a value, or of its absence, if it holds of the parts holds throughout. Conversions
are followed with this induction: the parts are what they descend to, whatever the schema. -/
theorem parts_induction {motive : Option Data → Prop}
    (step : ∀ x, (∀ y ∈ parts x, motive y) → motive x) (x : Option Data) : motive x := by
  have hnone : motive none := step none (by simp [parts])
  cases x with
  | none => exact hnone
  | some v =>
      induction v using Value.induction with
      | null => exact step _ (by simp [parts])
      | bool b => exact step _ (by simp [parts])
      | number n => exact step _ (by simp [parts])
      | string s => exact step _ (by simp [parts])
      | atom t => exact step _ (by simp [parts])
      | array items ih =>
          refine step _ fun y hy => ?_
          obtain ⟨v, hv, rfl⟩ := List.mem_map.1 hy
          exact ih v hv
      | object members ih =>
          refine step _ fun y hy => ?_
          rcases List.mem_cons.1 hy with rfl | hy
          -- what a missing key holds is a part of every object
          · exact hnone
          · obtain ⟨m, hm, rfl⟩ := List.mem_map.1 hy
            exact ih m hm

end Data

end Agenda
