/-
There and back: what becomes of a JSON value.

A JSON value that is converted to internal names can always be taken back to the wire, whatever the
years in it, since the converted value holds the instants themselves. What comes out is the value
that went in, except that texts at timestamps are respelled and that the members of an object may
stand in another order: no member is lost and none is added. `Normalizes` says this along the
schema.

The conditions on the registry are those under which the two directions undo each other, and the
objects of the value have no key twice, as in every text.
-/
import Agenda.Proofs.Conversion.Acceptance
import Agenda.Proofs.Conversion.Opposite
import Agenda.Proofs.Lists

set_option autoImplicit false

namespace Agenda

/-- The schema of the members under a wire name, which may be a name that is not declared. -/
def memberSchema? (properties : List (Property Schema)) (additional : Option Schema)
    (key : String) : Option Schema :=
  match properties.find? fun p => p.wireName = key with
  | some p => some p.schema
  | none => additional

/-- The members of an object that are not declared. -/
def otherMembers (properties : List (Property Schema)) (ms : Table Json) : Table Json :=
  ms.filter fun m => m.1 ∉ properties.map Property.wireName

/-- A JSON value under a schema, and the same with its timestamps respelled and the members of its
objects in some order. -/
inductive Normalizes (r : Registry) : Schema → Json → Json → Prop where
  | kind {k : Kind} {v : Json} (hk : k ≠ .timestamp) (h : Engine.admits k (some v.lift) = true) :
      Normalizes r (.kind k) v v
  | null : Normalizes r (.kind .timestamp) .null .null
  | instant {text : String} {t : Instant} (h : Timestamp.read? text = some t) :
      Normalizes r (.kind .timestamp) (.string text) (.string (Data.spell t))
  | literals {words : List String} {distinct : words.Nodup} {word : String} (h : word ∈ words) :
      Normalizes r (.literals words distinct) (.string word) (.string word)
  | array {element : Schema} {vs ws : List Json} (hlength : vs.length = ws.length)
      (h : ∀ (i : Nat) v w, vs[i]? = some v → ws[i]? = some w → Normalizes r element v w) :
      Normalizes r (.array element) (.array vs) (.array ws)
  | candidate {candidates : List Schema} {c : Schema} {v w : Json} (hc : c ∈ candidates)
      (h : Normalizes r c v w) : Normalizes r (.union candidates) v w
  | object {properties : List (Property Schema)} {additional : Option Schema}
      {ms ns : Table Json} (hms : (Table.keys ms).Nodup)
      (hkeys : (Table.keys ms).Perm (Table.keys ns))
      (hallowed : ∀ key ∈ Table.keys ms, (memberSchema? properties additional key).isSome = true)
      (h : ∀ key s v w, memberSchema? properties additional key = some s →
        Table.find? ms key = some v → Table.find? ns key = some w → Normalizes r s v w) :
      Normalizes r (.object properties additional) (.object ms) (.object ns)
  | reference {name : String} {s : Schema} {v w : Json} (hname : r.find? name = some s)
      (h : Normalizes r s v w) : Normalizes r (.reference name) v w

section

variable {properties : List (Property Schema)} {additional : Option Schema}

/-- Under distinct names a declared member has the schema of its property. -/
theorem memberSchema?_of_mem (hnames : (properties.map Property.wireName).Nodup)
    {p : Property Schema} (hp : p ∈ properties) :
    memberSchema? properties additional p.wireName = some p.schema := by
  rw [memberSchema?]
  cases hfind : properties.find? fun q => q.wireName = p.wireName with
  | none => exact absurd (List.find?_eq_none.1 hfind p hp) (by simp)
  | some q =>
      have hname : q.wireName = p.wireName := by simpa using List.find?_some hfind
      rw [List.inj_on_of_nodup_map hnames (List.mem_of_find?_eq_some hfind) hp hname]

theorem memberSchema?_of_notMem {key : String} (hkey : key ∉ properties.map Property.wireName) :
    memberSchema? properties additional key = additional := by
  rw [memberSchema?]
  cases hfind : properties.find? fun q => q.wireName = key with
  | none => rfl
  | some q =>
      have hname : q.wireName = key := by simpa using List.find?_some hfind
      exact absurd (List.mem_map.2 ⟨q, List.mem_of_find?_eq_some hfind, hname⟩) hkey

theorem mem_otherMembers {ms : Table Json} {m : String × Json} :
    m ∈ otherMembers properties ms ↔ m ∈ ms ∧ m.1 ∉ properties.map Property.wireName := by
  rw [otherMembers, List.mem_filter, decide_eq_true_eq]

end

namespace Engine

variable {r : Registry} {owner : Option String} {x out : Option Data} {site : Site}
  {properties : List (Property Schema)} {additional : Option Schema}

/-- The converted value of `v` is taken back to `z`, wherever it stands, and `z` is `v` normalized.
-/
def Returns (r : Registry) (s : Schema) (v : Json) (out : Option Data) (z : Json) : Prop :=
  (∀ owner site, convertUnder r .toWire owner out site s = .ok (some z.lift)) ∧
    Normalizes r s v z

/-- What is absent goes back as absent. -/
theorem convertUnder_none_of_none (hacyclic : r.Acyclic) (hsound : r.Sound) {d d' : Direction}
    {s : Schema} (hs : r.Part s) (h : convertUnder r d owner none site s = .ok out)
    (owner' : Option String) (site' : Site) :
    convertUnder r d' owner' none site' s = .ok none := by
  have htakes : Takes r d none s := (exists_eq_ok_iff hacyclic hsound hs).1 ⟨out, h⟩
  -- whether a key may be missing does not depend on the direction
  rw [takes_none_iff hacyclic hsound hs, ← takes_none_iff (d := d') hacyclic hsound hs] at htakes
  obtain ⟨back, hback⟩ : ∃ back, convertUnder r d' owner' none site' s = .ok back :=
    (exists_eq_ok_iff hacyclic hsound hs).2 htakes
  rw [hback, eq_none_of_eq_ok hacyclic hback]

/-! ## Values without parts -/

/-- A JSON value denotes an instant as a text. -/
theorem exists_string_of_instantOf? {v : Json} {t : Instant}
    (h : instantOf? (some v.lift) = some t) :
    ∃ text, v = .string text ∧ Timestamp.read? text = some t := by
  cases v with
  | string text => exact ⟨text, rfl, h⟩
  | atom a => exact a.elim
  | _ => cases h

theorem exists_returns_timestamp {v : Json}
    (h : convertUnder r .toInternal owner (some v.lift) site (.kind .timestamp) = .ok out) :
    ∃ z, Returns r (.kind .timestamp) v out z := by
  rcases convertUnder_timestamp_eq_ok_iff.1 h with ⟨hnull, rfl⟩ | ⟨t, ht, rfl⟩
  · obtain rfl : v = .null := Json.lift_injective (Option.some.inj hnull)
    exact ⟨.null, fun _ _ => convertUnder_timestamp_eq_ok_iff.2 (.inl ⟨rfl, rfl⟩), .null⟩
  · obtain ⟨text, rfl, htext⟩ := exists_string_of_instantOf? ht
    refine ⟨.string (Data.spell t), fun _ _ => ?_, .instant htext⟩
    refine convertUnder_timestamp_eq_ok_iff.2 (.inr ⟨t, ?_, rfl⟩)
    exact congrArg some (truncate_of_instantOf? ht)

/-! ## Arrays -/

theorem exists_returns_array (hr : r.Acyclic) {element : Schema} {vs : List Json}
    {outs : List Data}
    (h : List.Forall₂ (fun v w => ∃ z, Returns r element v (some w) z) vs outs) :
    ∃ z, Returns r (.array element) (.array vs) (some (.array outs)) z := by
  obtain ⟨zs, hnormal, hback⟩ : ∃ zs : List Json, List.Forall₂ (Normalizes r element) vs zs ∧
      List.Forall₂ (fun w z => ∀ owner site, convertUnder r .toWire owner (some w) site element =
        .ok (some (Json.lift z))) outs zs :=
    exists_forall₂_both (h.imp fun v w ⟨z, hz⟩ => ⟨z, hz.2, hz.1⟩)
  refine ⟨.array zs, fun owner site => ?_, .array hnormal.length_eq fun i v z hv hz => ?_⟩
  · rw [Json.lift_array]
    refine (convertUnder_array_eq_ok_iff_forall₂ hr).2 ⟨outs, _, rfl, rfl, ?_⟩
    rw [List.forall₂_map_right_iff]
    exact hback.imp fun w z hwz => (convert_eq_convertUnder _ _ _).trans (hwz none site)
  · obtain ⟨hi, rfl⟩ := List.getElem?_eq_some_iff.1 hv
    obtain ⟨hi', rfl⟩ := List.getElem?_eq_some_iff.1 hz
    exact hnormal.get hi hi'

/-! ## Objects -/

/-- What an object without repeated keys is converted to: the declared members and, behind them, all
the surplus ones, whose names are declared on neither side. -/
theorem exists_parts_of_tabular_eq_ok {d : Direction} (hr : r.Acyclic) {members : Table Data}
    (hsource : (properties.map d.sourceName).Nodup) (htarget : (properties.map d.targetName).Nodup)
    (hkeeps : additional = none ∨ ∀ p ∈ properties, p.wireName = p.internalName)
    (hkeys : (Table.keys members).Nodup)
    (h : convertUnder r d owner (some (.object members)) site (.object properties additional) =
      .ok out) :
    ∃ (vs : List (Option Data)) (ws : List Data),
      List.Forall₂ (fun p v => convertProperty r d owner members p = .ok v) properties vs ∧
      List.Forall₂ (fun m w => ConvertsSurplus r d owner additional m (some w))
        (surplus d properties members) ws ∧
      (∀ m ∈ surplus d properties members,
        m.1 ∉ properties.map d.sourceName ∧ m.1 ∉ properties.map d.targetName) ∧
      out = some (.object (present ((properties.map d.targetName).zip vs) ++
        (Table.keys (surplus d properties members)).zip ws)) := by
  obtain ⟨_, _, os, ⟨⟩, _, hos, _⟩ := (convertUnder_object_eq_ok_iff hsource).1 h
  have hother := fun m hm => notMem_names_of_mem_surplus (m := m) hkeeps hos hm
  obtain ⟨vs, ws, hvs, hws, hout⟩ := exists_parts_of_apart_eq_ok hr hsource htarget hkeys
    (fun m hm => (hother m hm).2) h
  exact ⟨vs, ws, hvs, hws, hother, hout⟩

/-- What becomes of the member under the wire name of a property, which may be missing on both
sides. -/
def PropertyReturns (r : Registry) (ms : Table Json) (p : Property Schema) (v : Option Data)
    (o : Option Json) : Prop :=
  (∀ site, convert r .toWire v site p.schema = .ok (o.map Json.lift)) ∧
    Option.Rel (Normalizes r p.schema) (Table.find? ms p.wireName) o

/-- What becomes of a surplus member. -/
def SurplusReturns (r : Registry) (additional : Option Schema) (m : String × Json) (w : Data)
    (z : Json) : Prop :=
  ∃ extra ∈ additional, (∀ site, convert r .toWire (some w) site extra = .ok (some z.lift)) ∧
    Normalizes r extra m.2 z

section

variable {ms : Table Json}
  {rows : List ((Property Schema × Option Data) × Option Json)}
  {extras : List (((String × Json) × Data) × Json)}

/-- The wire object with the declared members of the rows and the surplus ones behind them. -/
def returned (rows : List ((Property Schema × Option Data) × Option Json))
    (extras : List (((String × Json) × Data) × Json)) : Table Json :=
  (rows.filterMap fun w => w.2.map (Prod.mk w.1.1.wireName)) ++
    extras.map fun e => (e.1.1.1, e.2)

/-- The rows go through the properties of an object, and the surplus members are those that it has
besides. -/
structure Covers (properties : List (Property Schema)) (ms : Table Json)
    (rows : List ((Property Schema × Option Data) × Option Json))
    (extras : List (((String × Json) × Data) × Json)) : Prop where
  declared : rows.map (fun w => w.1.1) = properties
  surplus : extras.map (fun e => e.1.1) = otherMembers properties ms

namespace Covers

theorem map_name (h : Covers properties ms rows extras) (name : Property Schema → String) :
    (rows.map fun w => name w.1.1) = properties.map name := by
  rw [← h.declared, List.map_map]
  rfl

theorem mem_other (h : Covers properties ms rows extras) {e : ((String × Json) × Data) × Json}
    (he : e ∈ extras) : e.1.1 ∈ otherMembers properties ms :=
  h.surplus ▸ List.mem_map.2 ⟨e, he, rfl⟩

/-- Surplus members have names that are not declared. -/
theorem notMem_names (h : Covers properties ms rows extras)
    {e : ((String × Json) × Data) × Json} (he : e ∈ extras) :
    e.1.1.1 ∉ rows.map fun w => w.1.1.wireName := by
  rw [h.map_name]
  exact (mem_otherMembers.1 (h.mem_other he)).2

theorem nodup_surplus (h : Covers properties ms rows extras) (hkeys : (Table.keys ms).Nodup) :
    (extras.map fun e => e.1.1.1).Nodup := by
  have hnodup : (Table.keys (otherMembers properties ms)).Nodup :=
    (List.filter_sublist.map Prod.fst).nodup hkeys
  rw [← h.surplus, Table.keys, List.map_map] at hnodup
  exact hnodup

end Covers

theorem lift_returned :
    Json.lift (.object (returned rows extras)) =
      assembled Property.wireName rows (fun w => w.1.1) (fun w => w.2.map Json.lift) extras
        (fun e => e.1.1.1) (fun e => e.2.lift) := by
  rw [Json.lift_object, returned, assembled, List.map_append, present, List.map_filterMap,
    List.filterMap_map, List.map_map]
  refine congrArg Value.object (congrArg₂ _ (List.filterMap_congr fun w _ => ?_) rfl)
  rcases w with ⟨_, _ | z⟩ <;> rfl

theorem keys_returned_sublist : (Table.keys (returned rows extras)).Sublist
    ((rows.map fun w => w.1.1.wireName) ++ extras.map fun e => e.1.1.1) := by
  rw [returned, Table.keys_append, Table.keys, Table.keys, List.map_map]
  refine List.Sublist.append ?_ (List.Sublist.refl _)
  induction rows with
  | nil => exact .slnil
  | cons w rest ih =>
      rcases w with ⟨w, _ | z⟩
      · exact ih.trans (List.sublist_cons_self _ _)
      · exact ih.cons_cons _

section

variable (h : Covers properties ms rows extras)
  (hwire : (properties.map Property.wireName).Nodup)

include h hwire

/-- A declared member is found under the name of its property. -/
theorem find?_returned_of_row {w : (Property Schema × Option Data) × Option Json} (hw : w ∈ rows) :
    Table.find? (returned rows extras) w.1.1.wireName = w.2 := by
  have hfound : Table.find?
      (present (rows.map fun w => (w.1.1.wireName, w.2.map Json.lift)) ++
        extras.map fun e => (e.1.1.1, Json.lift e.2)) w.1.1.wireName = w.2.map Json.lift :=
    find?_assembled (h.map_name _ ▸ hwire) (fun _ he => h.notMem_names he) hw
  have hlift := (Json.lift_object _).symm.trans (@lift_returned rows extras)
  rw [← Value.object.inj hlift, Table.find?_map] at hfound
  exact Option.map_injective (fun _ _ => Json.lift_injective) hfound

/-- The wire object has no key twice. -/
theorem nodup_keys_returned (hkeys : (Table.keys ms).Nodup) :
    (Table.keys (returned rows extras)).Nodup := by
  have hnames : (rows.map fun w => w.1.1.wireName).Nodup := h.map_name _ ▸ hwire
  refine keys_returned_sublist.nodup
    (List.nodup_append.2 ⟨hnames, h.nodup_surplus hkeys, ?_⟩)
  rintro a ha b hb rfl
  obtain ⟨e, he, rfl⟩ := List.mem_map.1 hb
  exact h.notMem_names he ha

/-- The same member is found on both sides under a key, or none. -/
theorem rel_find?_returned (hkeys : (Table.keys ms).Nodup)
    (hrow : ∀ w ∈ rows, PropertyReturns r ms w.1.1 w.1.2 w.2)
    (hextra : ∀ e ∈ extras, SurplusReturns r additional e.1.1 e.1.2 e.2) (key : String) :
    Option.Rel
      (fun v w => ∃ s, memberSchema? properties additional key = some s ∧ Normalizes r s v w)
      (Table.find? ms key) (Table.find? (returned rows extras) key) := by
  by_cases hkey : key ∈ properties.map Property.wireName
  · obtain ⟨p, hp, rfl⟩ := List.mem_map.1 hkey
    obtain ⟨w, hw, rfl⟩ := List.mem_map.1 (h.declared ▸ hp)
    rw [find?_returned_of_row h hwire hw, memberSchema?_of_mem hwire hp]
    obtain ⟨hsome, hvz⟩ := optionRel_iff.1 (hrow w hw).2
    exact optionRel_iff.2 ⟨hsome, fun v z hv hz => ⟨_, rfl, hvz v z hv hz⟩⟩
  · rw [memberSchema?_of_notMem hkey]
    cases hv : Table.find? ms key with
    | none =>
        -- a key of the wire object is that of a property or of a member that was there
        have hnone : Table.find? (returned rows extras) key = none := by
          rw [Table.find?_eq_none_iff]
          intro hm
          rcases List.mem_append.1 (keys_returned_sublist.subset hm) with hm | hm
          · exact hkey (h.map_name _ ▸ hm)
          · obtain ⟨e, he, rfl⟩ := List.mem_map.1 hm
            exact Table.find?_eq_none_iff.1 hv
              (Table.mem_keys_of_mem (mem_otherMembers.1 (h.mem_other he)).1)
        rw [hnone]
        exact .none
    | some v =>
        have hm : (key, v) ∈ otherMembers properties ms :=
          mem_otherMembers.2 ⟨Table.mem_of_find? hv, hkey⟩
        obtain ⟨e, he, heq⟩ := List.mem_map.1 (h.surplus ▸ hm)
        obtain ⟨extra, hadditional, -, hvz⟩ := hextra e he
        have hmem : (e.1.1.1, e.2) ∈ returned rows extras :=
          List.mem_append_right _ (List.mem_map.2 ⟨e, he, rfl⟩)
        have hfound := Table.find?_of_mem (nodup_keys_returned h hwire hkeys) hmem
        rw [heq] at hvz hfound
        rw [hfound]
        exact .some ⟨extra, hadditional, hvz⟩

end

end

/-- An object goes back to the wire as soon as its members do. -/
theorem exists_returns_object {ms : Table Json} {vs : List (Option Data)} {ws : List Data}
    (hwire : (properties.map Property.wireName).Nodup)
    (hinternal : (properties.map Property.internalName).Nodup)
    (hkeys : (Table.keys ms).Nodup) (hlength : properties.length = vs.length)
    (hlengths : (otherMembers properties ms).length = ws.length)
    (hother : ∀ m ∈ otherMembers properties ms, m.1 ∉ properties.map Property.internalName)
    (hdeclared : ∀ w ∈ properties.zip vs, ∃ o, PropertyReturns r ms w.1 w.2 o)
    (hsurplus : ∀ e ∈ (otherMembers properties ms).zip ws,
      ∃ z, SurplusReturns r additional e.1 e.2 z) :
    ∃ z, Returns r (.object properties additional) (.object ms)
      (some (.object (present ((properties.map Property.internalName).zip vs) ++
        (Table.keys (otherMembers properties ms)).zip ws))) z := by
  obtain ⟨rows, hrows, hrow⟩ := exists_map_fst_eq hdeclared
  obtain ⟨extras, hextras, hextra⟩ := exists_map_fst_eq hsurplus
  have hcovers : Covers properties ms rows extras := by
    constructor
    · rw [← List.map_fst_zip (le_of_eq hlength), ← hrows, List.map_map]
      rfl
    · rw [← List.map_fst_zip (le_of_eq hlengths), ← hextras, List.map_map]
      rfl
  have hout : Value.object (present ((properties.map Property.internalName).zip vs) ++
      (Table.keys (otherMembers properties ms)).zip ws) =
      assembled Property.internalName rows (fun w => w.1.1) (fun w => w.1.2) extras
        (fun e => e.1.1.1) (fun e => e.1.2) := by
    rw [assembled, Table.keys, List.zip_map_left, List.zip_map_left, ← hrows, ← hextras,
      List.map_map, List.map_map]
    rfl
  refine ⟨.object (returned rows extras), fun owner site => ?_, ?_⟩
  · have hassembled := @convertUnder_assembled r .toWire owner site additional _ _ rows
      (fun w => w.1.1) (fun w => w.1.2) (fun w => w.2.map Json.lift) extras (fun e => e.1.1.1)
      (fun e => e.1.2) (fun e => e.2.lift)
    rw [hcovers.map_name, hcovers.map_name, hcovers.declared] at hassembled
    rw [lift_returned, hout]
    refine hassembled hinternal hwire (hcovers.nodup_surplus hkeys)
      (fun e he => hother _ (hcovers.mem_other he))
      (fun e he => (mem_otherMembers.1 (hcovers.mem_other he)).2) (fun w hw => (hrow w hw).1)
      fun e he => ?_
    obtain ⟨extra, hadditional, hz, _⟩ := hextra e he
    exact ⟨extra, hadditional, hz⟩
  · have hfind := rel_find?_returned hcovers hwire hkeys hrow hextra
    have hnodup := nodup_keys_returned hcovers hwire hkeys
    refine .object hkeys ((List.perm_ext_iff_of_nodup hkeys hnodup).2 fun key => ?_)
      (fun key hk => ?_) fun key s v z hs hv hz => ?_
    · rw [← Table.isSome_find?_iff, ← Table.isSome_find?_iff, (optionRel_iff.1 (hfind key)).1]
    · obtain ⟨v, hv⟩ := Table.exists_find?_of_mem_keys hk
      obtain ⟨hsome, hvz⟩ := optionRel_iff.1 (hfind key)
      rw [hv] at hsome
      obtain ⟨z, hz⟩ := Option.isSome_iff_exists.1 hsome.symm
      obtain ⟨s, hs, _⟩ := hvz v z hv hz
      exact Option.isSome_iff_exists.2 ⟨s, hs⟩
    · obtain ⟨s', hs', hvz⟩ := (optionRel_iff.1 (hfind key)).2 v z hv hz
      obtain rfl : s = s' := Option.some.inj (hs.symm.trans hs')
      exact hvz

theorem surplus_lift (ms : Table Json) :
    surplus .toInternal properties (ms.map fun m => (m.1, Json.lift m.2)) =
      (otherMembers properties ms).map fun m => (m.1, Json.lift m.2) := by
  rw [surplus, otherMembers, List.filter_map]
  rfl

/-- The member under a declared name goes back if it can, where it is there. -/
theorem exists_propertyReturns (hacyclic : r.Acyclic) (hsound : r.Sound) {p : Property Schema}
    (hp : r.Part p.schema) {ms : Table Json} {v : Option Data}
    (h : convertProperty r .toInternal owner (ms.map fun m => (m.1, Json.lift m.2)) p = .ok v)
    (hmember : ∀ u, Table.find? ms p.wireName = some u → ∀ site,
      convertUnder r .toInternal none (some u.lift) site p.schema = .ok v →
      ∃ z, Returns r p.schema u v z) :
    ∃ o, PropertyReturns r ms p v o := by
  rw [convertProperty, Table.find?_map, convert_eq_convertUnder] at h
  cases hu : Table.find? ms (Direction.toInternal.sourceName p) with
  | none =>
      rw [hu] at h
      obtain rfl := eq_none_of_eq_ok hacyclic h
      refine ⟨none, fun site => ?_, ?_⟩
      · rw [convert_eq_convertUnder]
        exact convertUnder_none_of_none hacyclic hsound hp h none site
      · rw [show Table.find? ms p.wireName = none from hu]
        exact .none
  | some u =>
      rw [hu] at h
      obtain ⟨z, hz, hnormal⟩ := hmember u hu _ h
      refine ⟨some z, fun site => ?_, ?_⟩
      · rw [convert_eq_convertUnder]
        exact hz none site
      · rw [show Table.find? ms p.wireName = some u from hu]
        exact .some hnormal

/-- So does a surplus member. -/
theorem exists_surplusReturns {m : String × Json} {w : Data}
    (h : ConvertsSurplus r .toInternal owner additional (m.1, m.2.lift) (some w))
    (hmember : ∀ extra ∈ additional, ∀ site,
      convertUnder r .toInternal none (some m.2.lift) site extra = .ok (some w) →
      ∃ z, Returns r extra m.2 (some w) z) :
    ∃ z, SurplusReturns r additional m w z := by
  obtain ⟨extra, hextra, hok⟩ := h
  rw [convert_eq_convertUnder] at hok
  obtain ⟨z, hz, hnormal⟩ := hmember extra hextra _ hok
  refine ⟨z, extra, hextra, fun site => ?_, hnormal⟩
  rw [convert_eq_convertUnder]
  exact hz none site

/-! ## Every value -/

/-- Whatever a JSON value was converted to goes back to the wire, and is the value normalized. -/
theorem exists_returns (hacyclic : r.Acyclic) (hsound : r.Sound) (hseparable : r.Separable)
    (hkeeps : r.KeepsNames) {s : Schema} (hs : r.Part s) {v : Json} (hv : v.Tabular)
    (h : convertUnder r .toInternal owner (some v.lift) site s = .ok out) :
    ∃ z, Returns r s v out z := by
  generalize hx : some v.lift = x at h
  induction x using Data.parts_induction generalizing s v owner site out with
  | step x ihx =>
      induction s using Registry.Acyclic.induction hacyclic generalizing owner site out with
      | kind k =>
          subst hx
          by_cases hk : k = .timestamp
          · subst hk
            exact exists_returns_timestamp h
          · obtain ⟨hadmits, rfl⟩ := (convertUnder_kind_eq_ok_iff hk).1 h
            exact ⟨v, fun _ _ => (convertUnder_kind_eq_ok_iff hk).2 ⟨hadmits, rfl⟩,
              .kind hk hadmits⟩
      | literals words distinct =>
          subst hx
          obtain ⟨word, hword, hword', rfl⟩ := convertUnder_literals_eq_ok_iff.1 h
          obtain rfl : v = .string word := Json.lift_injective (Option.some.inj hword')
          exact ⟨.string word, fun _ _ => convertUnder_literals_eq_ok_iff.2 ⟨word, hword, rfl, rfl⟩,
            .literals hword⟩
      | array element =>
          obtain ⟨items, outs, rfl, rfl, hitems⟩ :=
            (convertUnder_array_eq_ok_iff_forall₂ hacyclic).1 h
          obtain ⟨vs, rfl, rfl⟩ := Json.exists_of_lift_eq_array (Option.some.inj hx)
          rw [List.forall₂_map_left_iff] at hitems
          refine exists_returns_array hacyclic (forall₂_imp_of_mem hitems fun u hu w hw => ?_)
          rw [convert_eq_convertUnder] at hw
          exact ihx _ (Data.mem_parts_of_mem_items (List.mem_map_of_mem hu)) hs.element
            (Value.tabular_array.1 hv u hu) rfl hw
      | union candidates ih =>
          obtain ⟨before, c, after, hsplit, _, hc⟩ := convertUnder_union_eq_ok_iff.1 h
          rw [convert_eq_convertUnder] at hc
          have hmem : c ∈ candidates := by simp [hsplit]
          obtain ⟨z, hz, hnormal⟩ := ih c hmem (hs.candidate hmem) hc
          exact ⟨z, fun owner site => convertUnder_union_of_mem hacyclic hsound hseparable hs hmem
            (hz none site), .candidate hmem hnormal⟩
      | object properties additional =>
          obtain ⟨members, all, rfl, rfl⟩ := exists_object_of_eq_ok h
          obtain ⟨ms, rfl, rfl⟩ := Json.exists_of_lift_eq_object (Option.some.inj hx)
          obtain ⟨hkeys, htabular⟩ := Value.tabular_object.1 hv
          obtain ⟨vs, ws, hvs, hws, hother, hall⟩ := exists_parts_of_tabular_eq_ok hacyclic
            (hsound.sourceNames hs .toInternal) (hsound.targetNames hs .toInternal)
            (hkeeps _ _ hs) (by rwa [Table.keys_map]) h
          rw [surplus_lift] at hws hother hall
          rw [hall, Table.keys_map]
          refine exists_returns_object (hsound.wireNames hs) (hsound.internalNames hs) hkeys
            hvs.length_eq (by simpa using hws.length_eq) ?_ ?_ ?_
          · exact fun m hm => (hother _ (List.mem_map.2 ⟨m, hm, rfl⟩)).2
          · intro w hw
            refine exists_propertyReturns hacyclic hsound
              (hs.property (List.of_mem_zip hw).1) (List.forall₂_zip hvs hw) fun u hu site hok => ?_
            have hmem := Table.mem_of_find? hu
            exact ihx _ (Data.mem_parts_of_mem_members (List.mem_map.2 ⟨_, hmem, rfl⟩))
              (hs.property (List.of_mem_zip hw).1) (htabular _ hmem) rfl hok
          · intro e he
            rw [List.forall₂_map_left_iff] at hws
            refine exists_surplusReturns (List.forall₂_zip hws he) fun extra hextra site hok => ?_
            obtain rfl := hextra
            have hmem := (mem_otherMembers.1 (List.of_mem_zip he).1).1
            exact ihx _ (Data.mem_parts_of_mem_members (List.mem_map.2 ⟨_, hmem, rfl⟩))
              hs.additional (htabular _ hmem) rfl hok
      | reference name ih =>
          obtain ⟨s, hname⟩ := hsound.resolves hs
          rw [convertUnder_reference hacyclic hname] at h
          obtain ⟨z, hz, hnormal⟩ := ih s hname (.registered hname) h
          refine ⟨z, fun owner site => ?_, .reference hname hnormal⟩
          rw [convertUnder_reference hacyclic hname]
          exact hz (some name) site

end Engine

end Agenda
