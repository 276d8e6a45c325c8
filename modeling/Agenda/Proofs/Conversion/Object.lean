/-
What an object becomes.

Under distinct names a renaming is just the list of the properties, and a conversion of an object is
two lists of results: one for the declared properties, in the order of their declaration, and one
for the surplus members, in the order of the object. What is stored are the results that are
present. Names that differ make the storing an append, so the converted object can be read off.
-/
import Agenda.Proofs.Conversion.Outcome

set_option autoImplicit false

namespace Agenda.Engine

variable {r : Registry} {d : Direction} {owner : Option String} {x out : Option Data} {site : Site}
  {properties : List (Property Schema)} {additional : Option Schema} {members : Table Data}

/-! ## Storing results -/

/-- Results under names, stored one after the other. The engine stores a result as soon as it has
it; here the results come first, so that they can be spoken of by themselves. -/
def storeAll (start : Table Data) (results : List (String × Option Data)) : Table Data :=
  results.foldl (fun out m => store out m.1 m.2) start

/-- The results that are present, under their names. An absent result leaves no key behind, and in
particular no null. -/
def present (results : List (String × Option Data)) : Table Data :=
  results.filterMap fun m => m.2.map (Prod.mk m.1)

@[simp] theorem present_nil : present [] = [] := rfl

@[simp] theorem present_cons_none (name : String) (results : List (String × Option Data)) :
    present ((name, none) :: results) = present results := rfl

@[simp] theorem present_cons_some (name : String) (v : Data)
    (results : List (String × Option Data)) :
    present ((name, some v) :: results) = (name, v) :: present results := rfl

/-- Leaving out what is absent keeps the order of the names. -/
theorem keys_present_sublist (results : List (String × Option Data)) :
    (Table.keys (present results)).Sublist (results.map Prod.fst) := by
  induction results with
  | nil => simp
  | cons m results ih =>
      obtain ⟨name, _ | v⟩ := m
      · exact ih.trans (List.sublist_cons_self _ _)
      · exact ih.cons_cons name

/-- Under names that differ from one another and from those already there, storing is an append. So
the order of the output is that of the schema, with undeclared members behind. -/
theorem storeAll_of_nodup {start : Table Data} {results : List (String × Option Data)}
    (h : (Table.keys start ++ results.map Prod.fst).Nodup) :
    storeAll start results = start ++ present results := by
  induction results generalizing start with
  | nil => simp [storeAll]
  | cons m results ih =>
      obtain ⟨name, v⟩ := m
      rw [List.map_cons, List.nodup_append] at h
      have hname : name ∉ Table.keys start := fun hm => h.2.2 _ hm _ List.mem_cons_self rfl
      cases v with
      | none =>
          rw [storeAll, List.foldl_cons, ← storeAll, store, ih, present_cons_none]
          refine List.nodup_append.2 ⟨h.1, (List.nodup_cons.1 h.2.1).2, ?_⟩
          exact fun a ha b hb => h.2.2 a ha b (List.mem_cons_of_mem _ hb)
      | some v =>
          rw [storeAll, List.foldl_cons, ← storeAll, store, Table.insert_of_notMem _ hname, ih,
            present_cons_some, List.append_assoc, List.singleton_append]
          rw [Table.keys_append, List.append_assoc]
          exact List.nodup_append.2 h

/-- Results beside their names, if the names differ from one another. -/
theorem storeAll_zip {names : List String} {vs : List (Option Data)} (hnames : names.Nodup)
    (hlength : names.length = vs.length) :
    storeAll [] (names.zip vs) = present (names.zip vs) := by
  have hfresh : (Table.keys ([] : Table Data) ++ (names.zip vs).map Prod.fst).Nodup := by
    rw [Table.keys_nil, List.nil_append, List.map_fst_zip (le_of_eq hlength)]
    exact hnames
  rw [storeAll_of_nodup hfresh, List.nil_append]

/-! ## The two runs over an object -/

/-- All the members are converted by one walk, whether they are declared or not. What is done with a
conversion is decided afterwards. -/
theorem convertMembers_eq_map (r : Registry) (d : Direction) (members : List (String × Data)) :
    convertMembers r d members = members.map fun m => (m.1, convertValue r d m.2) := by
  induction members with
  | nil => rfl
  | cons m rest ih => rw [convertMembers, ih, List.map_cons]

/-- The attempt for a declared key converts what stands under the key, or its absence. The site
names the object, so absence is converted anew for every schema. -/
theorem attempt_eq_convert (key : String) :
    (Table.find? (convertMembers r d members) key).getD (convertAbsent r d) =
      convert r d (Table.find? members key) := by
  rw [convertMembers_eq_map, Table.find?_map]
  cases Table.find? members key <;> rfl

/-- The conversion of what an object has for a declared property. -/
def convertProperty (r : Registry) (d : Direction) (owner : Option String) (members : Table Data)
    (p : Property Schema) : Converted :=
  convert r d (Table.find? members (d.sourceName p)) ⟨some (d.sourceName p), owner⟩ p.schema

/-- The entries of a renaming for some of the properties. A proof goes through the properties from
left to right, and what is left to do are the entries for the others. -/
def entries (d : Direction) (properties : List (Property Schema))
    (places : List (Fin properties.length)) : Table (Renamed properties.length) :=
  places.map fun i => (d.sourceName properties[i], ⟨d.targetName properties[i], i⟩)

theorem map_finRange (f : Property Schema → String) :
    ((List.finRange properties.length).map fun i => f properties[i]) = properties.map f := by
  conv_rhs => rw [← List.map_getElem_finRange properties, List.map_map]
  rfl

theorem keys_entries :
    Table.keys (entries d properties (List.finRange properties.length)) =
      properties.map d.sourceName := by
  rw [← map_finRange, Table.keys, entries, List.map_map]
  rfl

/-- With names that differ, a renaming has one entry for each property, in order. -/
theorem renaming_of_nodup (h : (properties.map d.sourceName).Nodup) :
    Renaming properties d = entries d properties (List.finRange properties.length) :=
  Table.ofList_of_nodup (keys_entries.symm ▸ h)

/-- The declared part of an object is converted exactly if each of its properties is, and then the
results are stored under their other names. The induction is over places left to do, with what has
been stored so far. -/
theorem declared_eq_ok_iff {places : List (Fin properties.length)} {start all : Table Data} :
    declared properties owner (convertAbsent r d) (convertMembers r d members)
        (entries d properties places) start = .ok all ↔
      ∃ vs, List.Forall₂ (fun i v => convertProperty r d owner members properties[i] = .ok v)
          places vs ∧
        all = storeAll start ((places.map fun i => d.targetName properties[i]).zip vs) := by
  induction places generalizing start with
  | nil => simp [entries, declared, storeAll, eq_comm]
  | cons i places ih =>
      rw [entries, List.map_cons, declared, ← entries, attempt_eq_convert]
      simp only [Result.bind_eq_ok_iff, ih, List.forall₂_cons_left_iff]
      constructor
      · rintro ⟨v, hv, vs, hvs, rfl⟩
        exact ⟨v :: vs, ⟨v, vs, hv, hvs, rfl⟩, rfl⟩
      · rintro ⟨_, ⟨v, vs, hv, hvs, rfl⟩, rfl⟩
        exact ⟨v, hv, vs, hvs, rfl⟩

/-- The members of an object that its schema does not declare, in the order of the object. -/
def surplus (d : Direction) (properties : List (Property Schema)) (members : Table Data) :
    Table Data :=
  members.filter fun m => m.1 ∉ properties.map d.sourceName

theorem nodup_keys_surplus (d : Direction) (properties : List (Property Schema))
    (h : (Table.keys members).Nodup) : (Table.keys (surplus d properties members)).Nodup :=
  (List.filter_sublist.map Prod.fst).nodup h

/-- Undeclared members are found as before, and declared ones are not among them. -/
theorem find?_surplus (key : String) :
    Table.find? (surplus d properties members) key =
      if key ∈ properties.map d.sourceName then none else Table.find? members key := by
  induction members with
  | nil => simp [surplus, Table.find?]
  | cons m rest ih =>
      rw [surplus] at ih ⊢
      rw [List.filter_cons, Table.find?_cons]
      by_cases hm : m.1 ∈ properties.map d.sourceName
      · rw [if_neg (by simpa using hm), ih]
        by_cases hkey : m.1 = key
        · subst hkey
          rw [if_pos hm, if_pos hm]
        · rw [if_neg hkey]
      · rw [if_pos (decide_eq_true hm), Table.find?_cons, ih]
        by_cases hkey : m.1 = key
        · subst hkey
          rw [if_pos rfl, if_neg hm, if_pos rfl]
        · rw [if_neg hkey, if_neg hkey]

/-- Behind declared members the surplus ones are those with other names. This is what the opposite
direction finds in an output. -/
theorem surplus_append {extras : Table Data}
    (hdeclared : ∀ m ∈ members, m.1 ∈ properties.map d.sourceName)
    (hextras : ∀ e ∈ extras, e.1 ∉ properties.map d.sourceName) :
    surplus d properties (members ++ extras) = extras := by
  rw [surplus, List.filter_append, List.filter_eq_nil_iff.2, List.filter_eq_self.2,
    List.nil_append]
  · intro e he
    exact decide_eq_true (hextras e he)
  · intro m hm
    rw [decide_eq_true_iff, not_not]
    exact hdeclared m hm

/-- The conversion of a surplus member; none is allowed if there is no schema for it. Its key is not
renamed, and it is the key that a rejection is located at. -/
def ConvertsSurplus (r : Registry) (d : Direction) (owner : Option String)
    (additional : Option Schema) (m : String × Data) (v : Option Data) : Prop :=
  ∃ extra ∈ additional, convert r d (some m.2) ⟨some m.1, owner⟩ extra = .ok v

/-- The undeclared part of an object is converted exactly if each of its members is, under its own
key. -/
theorem undeclared_eq_ok_iff {isDeclared : String → Bool} {start all : Table Data} :
    undeclared additional owner isDeclared members (convertMembers r d members) start = .ok all ↔
      ∃ vs, List.Forall₂ (ConvertsSurplus r d owner additional)
          (members.filter fun m => !isDeclared m.1) vs ∧
        all = storeAll start
          ((Table.keys (members.filter fun m => !isDeclared m.1)).zip vs) := by
  induction members generalizing start with
  | nil => cases additional <;> simp [undeclared, storeAll, eq_comm]
  | cons m rest ih =>
      obtain ⟨key, v⟩ := m
      cases hkey : isDeclared key with
      | true =>
          -- whether surplus members are allowed does not matter to a declared one
          have hskip : undeclared additional owner isDeclared ((key, v) :: rest)
              (convertMembers r d ((key, v) :: rest)) start =
              undeclared additional owner isDeclared rest (convertMembers r d rest) start := by
            cases additional <;> rw [convertMembers, undeclared, if_pos hkey]
          rw [hskip, ih, List.filter_cons, if_neg (by simp [hkey])]
      | false =>
          rw [List.filter_cons, if_pos (by simp [hkey])]
          simp only [List.forall₂_cons_left_iff, Table.keys_cons]
          cases additional with
          | none => simp [convertMembers, undeclared, hkey, ConvertsSurplus]
          | some extra =>
              rw [convertMembers, undeclared, if_neg (by simp [hkey])]
              simp only [Result.bind_eq_ok_iff, ih]
              constructor
              · rintro ⟨w, hw, ws, hws, rfl⟩
                exact ⟨w :: ws, ⟨w, ws, ⟨extra, rfl, hw⟩, hws, rfl⟩, rfl⟩
              · rintro ⟨_, ⟨w, ws, ⟨_, ⟨⟩, hw⟩, hws, rfl⟩, rfl⟩
                exact ⟨w, hw, ws, hws, rfl⟩

/-! ## The whole object -/

theorem filter_not_declared (h : (properties.map d.sourceName).Nodup) :
    (members.filter fun m => !(Table.find? (Renaming properties d) m.1).isSome) =
      surplus d properties members := by
  refine List.filter_congr fun m _ => ?_
  rw [renaming_of_nodup h, Bool.eq_iff_iff, Bool.not_eq_true', ← Bool.not_eq_true,
    Table.isSome_find?_iff, keys_entries, decide_eq_true_iff]

/-- When an object is converted, and into what. Everything that is proved about objects starts here,
in terms of two lists of results, and the engine's walk is not opened again. -/
theorem convertUnder_object_eq_ok_iff (h : (properties.map d.sourceName).Nodup) :
    convertUnder r d owner x site (.object properties additional) = .ok out ↔
      ∃ members vs ws, x = some (.object members) ∧
        List.Forall₂ (fun p v => convertProperty r d owner members p = .ok v) properties vs ∧
        List.Forall₂ (ConvertsSurplus r d owner additional) (surplus d properties members) ws ∧
        out = some (.object (storeAll (storeAll [] ((properties.map d.targetName).zip vs))
          ((Table.keys (surplus d properties members)).zip ws))) := by
  by_cases hx : ∃ members, x = some (.object members)
  · obtain ⟨members, rfl⟩ := hx
    -- the entries carry the places of the properties; a conversion is about the properties there
    have hforall : ∀ vs, List.Forall₂ (fun i v => convertProperty r d owner members properties[i] =
        .ok v) (List.finRange properties.length) vs ↔
        List.Forall₂ (fun p v => convertProperty r d owner members p = .ok v) properties vs := by
      intro vs
      conv_rhs => rw [← List.map_getElem_finRange properties, List.forall₂_map_left_iff]
      rfl
    rw [convertUnder_object]
    simp only [Result.bind_eq_ok_iff, undeclared_eq_ok_iff, filter_not_declared h]
    rw [renaming_of_nodup h]
    simp only [declared_eq_ok_iff, map_finRange, hforall, Except.ok.injEq, Option.some.injEq,
      Value.object.injEq]
    constructor
    · rintro ⟨_, ⟨vs, hvs, rfl⟩, _, ⟨ws, hws, rfl⟩, rfl⟩
      exact ⟨members, vs, ws, rfl, hvs, hws, rfl⟩
    · rintro ⟨_, vs, ws, rfl, hvs, hws, rfl⟩
      exact ⟨_, ⟨vs, hvs, rfl⟩, _, ⟨ws, hws, rfl⟩, rfl⟩
  · rw [not_exists] at hx
    rw [convertUnder_object_of_ne properties additional hx]
    simp only [reject, reduceCtorEq, false_iff]
    rintro ⟨members, _, _, hmembers, _⟩
    exact hx members hmembers

end Agenda.Engine
