/-
Undeclared keys on the way there and back.

An object schema that allows undeclared keys of type `any` stores what it finds under them as it is,
in the same object as the declared properties and under the keys that they have. The properties are
stored under new names, and nothing keeps these apart from the undeclared keys: the check of a
registry compares names of properties with one another only. If an undeclared key is the internal
name of a property, then it takes the place of the property when both are there, and it is renamed
as if it were the property on the way back.

This file shows that nothing else goes wrong. If, in every object that is met, no undeclared key is
the new name of a property, then the converted value is taken back; and an object keeps its
undeclared keys on the way there and back exactly if none of them is an internal name.
-/
import Agenda.Proofs.Conversion.Acceptance
import Agenda.Proofs.Conversion.Opposite

set_option autoImplicit false

namespace Agenda.Engine

variable {r : Registry} {d : Direction} {owner : Option String} {x out : Option Data} {site : Site}
  {properties : List (Property Schema)} {additional : Option Schema} {members : Table Data}

/-! ## Names that clash -/

/-- Somewhere in a value an undeclared key is the new name of a property of the same object. -/
inductive Clashes (r : Registry) (d : Direction) : Option Data → Schema → Prop where
  | here {members : Table Data} {properties : List (Property Schema)} {additional : Option Schema}
      {m : String × Data} (hm : m ∈ surplus d properties members)
      (hname : m.1 ∈ properties.map d.targetName) :
      Clashes r d (some (.object members)) (.object properties additional)
  | declared {members : Table Data} {properties : List (Property Schema)}
      {additional : Option Schema} {p : Property Schema} (hp : p ∈ properties)
      (h : Clashes r d (Table.find? members (d.sourceName p)) p.schema) :
      Clashes r d (some (.object members)) (.object properties additional)
  | surplus {members : Table Data} {properties : List (Property Schema)} {extra : Schema}
      {m : String × Data} (hm : m ∈ surplus d properties members)
      (h : Clashes r d (some m.2) extra) :
      Clashes r d (some (.object members)) (.object properties (some extra))
  | element {items : List Data} {v : Data} {element : Schema} (hv : v ∈ items)
      (h : Clashes r d (some v) element) : Clashes r d (some (.array items)) (.array element)
  | candidate {x : Option Data} {site : Site} {before after : List Schema} {c : Schema}
      (hbefore : ∀ b ∈ before, ∃ rejection, convert r d x site b = .error (.rejected rejection))
      (h : Clashes r d x c) : Clashes r d x (.union (before ++ c :: after))
  | reference {x : Option Data} {name : String} {s : Schema} (hname : r.find? name = some s)
      (h : Clashes r d x s) : Clashes r d x (.reference name)

theorem not_clashes_kind {k : Kind} : ¬ Clashes r d x (.kind k) := by
  intro h
  cases h

theorem exists_of_clashes_union {candidates : List Schema}
    (h : Clashes r d x (.union candidates)) : ∃ c ∈ candidates, Clashes r d x c := by
  cases h with
  | candidate _ h => exact ⟨_, List.mem_append_right _ List.mem_cons_self, h⟩

/-! ## Converted objects without a clash -/

section

variable {vs : List (Option Data)} {extras : Table Data} {name : Property Schema → String}

/-- A declared member is found under its new name. -/
theorem find?_declared (hnames : (properties.map name).Nodup)
    (hlength : properties.length = vs.length) (hextras : ∀ e ∈ extras, e.1 ∉ properties.map name)
    {p : Property Schema} {v : Option Data} (h : (p, v) ∈ properties.zip vs) :
    Table.find? (present ((properties.map name).zip vs) ++ extras) (name p) = v := by
  have hnone : Table.find? extras (name p) = none := by
    rw [Table.find?_eq_none_iff]
    intro hkey
    obtain ⟨e, he, heq⟩ := List.mem_map.1 hkey
    apply hextras e he
    rw [heq]
    exact List.mem_map_of_mem (List.of_mem_zip h).1
  rw [Table.find?_append, find?_present_zip hnames hlength h, hnone, Option.or_none]

/-- The members behind the declared ones are the surplus ones of the way back. -/
theorem surplus_declared_append
    (hextras : ∀ e ∈ extras, e.1 ∉ properties.map d.sourceName) :
    surplus d properties (present ((properties.map d.sourceName).zip vs) ++ extras) = extras := by
  refine surplus_append ?_ hextras
  intro m hm
  exact (List.of_mem_zip (mem_present hm)).1

end

/-- Each surplus member of a converted object comes from one under the same key. -/
theorem exists_surplus_of_mem_zip {ws : List Data}
    (hws : List.Forall₂ (fun m w => ConvertsSurplus r d owner additional m (some w))
      (surplus d properties members) ws)
    {e : String × Data} (he : e ∈ (Table.keys (surplus d properties members)).zip ws) :
    ∃ m ∈ surplus d properties members, m.1 = e.1 ∧
      ConvertsSurplus r d owner additional m (some e.2) := by
  rw [Table.keys, List.zip_map_left] at he
  obtain ⟨⟨m, w⟩, hmem, rfl⟩ := List.mem_map.1 he
  exact ⟨m, (List.of_mem_zip hmem).1, rfl, List.forall₂_zip hws hmem⟩

/-! ## The way back is open -/

/-- What an object without a clash is converted to is taken back if its members are. -/
theorem takes_back_object (hacyclic : r.Acyclic) (hsound : r.Sound)
    (hs : r.Part (.object properties additional)) (hkeys : (Table.keys members).Nodup)
    (hapart : ∀ m ∈ surplus .toInternal properties members,
      m.1 ∉ properties.map Property.internalName)
    (hproperty : ∀ p ∈ properties, ∀ v,
      convertProperty r .toInternal owner members p = .ok v → Takes r .toWire v p.schema)
    (hsurplus : ∀ m ∈ surplus .toInternal properties members, ∀ extra ∈ additional, ∀ w,
      convert r .toInternal (some m.2) ⟨some m.1, owner⟩ extra = .ok (some w) →
        Takes r .toWire (some w) extra)
    (h : convertUnder r .toInternal owner (some (.object members)) site
      (.object properties additional) = .ok out) :
    Takes r .toWire out (.object properties additional) := by
  obtain ⟨vs, ws, hvs, hws, rfl⟩ := exists_parts_of_apart_eq_ok hacyclic
    (hsound.sourceNames hs .toInternal) (hsound.targetNames hs .toInternal) hkeys hapart h
  have hextras : ∀ e ∈ (Table.keys (surplus .toInternal properties members)).zip ws,
      e.1 ∉ properties.map Property.internalName := by
    intro e he
    obtain ⟨m, hm, heq, _⟩ := exists_surplus_of_mem_zip hws he
    rw [← heq]
    exact hapart m hm
  rw [takes_object_iff hacyclic hsound hs]
  refine ⟨_, rfl, ?_, ?_⟩
  · intro p hp
    obtain ⟨v, hmem, hv⟩ := exists_mem_zip_of_forall₂ hvs hp
    have hfound := find?_declared (hsound.internalNames hs) hvs.length_eq hextras hmem
    rw [show Direction.toWire.sourceName p = p.internalName from rfl]
    rw [show Direction.toInternal.targetName = Property.internalName from rfl, hfound]
    exact hproperty p hp v hv
  · intro e he
    rw [show Direction.toInternal.targetName = Direction.toWire.sourceName from rfl,
      surplus_declared_append hextras] at he
    obtain ⟨m, hm, _, extra, hextra, hw⟩ := exists_surplus_of_mem_zip hws he
    exact ⟨extra, hextra, hsurplus m hm extra hextra e.2 hw⟩

/-- What a value without a clash is converted to is taken back. -/
theorem takes_back (hacyclic : r.Acyclic) (hsound : r.Sound) {s : Schema} (hs : r.Part s)
    (hx : ∀ v ∈ x, v.Tabular) (hclear : ¬ Clashes r .toInternal x s)
    (h : convertUnder r .toInternal owner x site s = .ok out) : Takes r .toWire out s := by
  induction x using Data.parts_induction generalizing s owner site out with
  | step x ihx =>
      induction s using Registry.Acyclic.induction hacyclic generalizing owner site out with
      | kind k =>
          by_cases hk : k = .timestamp
          · subst hk
            rw [takes_timestamp_iff]
            rcases convertUnder_timestamp_eq_ok_iff.1 h with ⟨_, rfl⟩ | ⟨t, _, rfl⟩
            · exact .inl rfl
            · exact .inr ⟨t.truncate, rfl⟩
          · obtain ⟨hadmits, rfl⟩ := (convertUnder_kind_eq_ok_iff hk).1 h
            rwa [takes_kind_iff hk]
      | literals words distinct =>
          obtain ⟨word, hword, rfl, rfl⟩ := convertUnder_literals_eq_ok_iff.1 h
          rw [takes_literals_iff]
          exact ⟨word, hword, rfl⟩
      | array element =>
          obtain ⟨items, outs, rfl, rfl, hitems⟩ :=
            (convertUnder_array_eq_ok_iff_forall₂ hacyclic).1 h
          rw [takes_array_iff hacyclic]
          refine ⟨outs, rfl, ?_⟩
          intro w hw
          obtain ⟨v, hmem, hvw⟩ := exists_mem_zip_of_forall₂ hitems.flip hw
          have hv : v ∈ items := (List.of_mem_zip hmem).2
          rw [convert_eq_convertUnder] at hvw
          refine ihx _ (Data.mem_parts_of_mem_items hv) hs.element ?_ ?_ hvw
          · rintro u ⟨⟩
            exact Value.tabular_array.1 (hx _ rfl) v hv
          · intro hclash
            exact hclear (.element hv hclash)
      | union candidates ih =>
          obtain ⟨before, c, after, rfl, hbefore, hc⟩ := convertUnder_union_eq_ok_iff.1 h
          have hmem : c ∈ before ++ c :: after := List.mem_append_right _ List.mem_cons_self
          rw [convert_eq_convertUnder] at hc
          rw [takes_union_iff hacyclic hsound hs]
          refine ⟨c, hmem, ih c hmem (hs.candidate hmem) ?_ hc⟩
          intro hclash
          exact hclear (.candidate hbefore hclash)
      | object properties additional =>
          obtain ⟨members, all, rfl, rfl⟩ := exists_object_of_eq_ok h
          obtain ⟨hkeys, htabular⟩ := Value.tabular_object.1 (hx _ rfl)
          refine takes_back_object hacyclic hsound hs hkeys ?_ ?_ ?_ h
          · intro m hm hname
            exact hclear (.here hm hname)
          · intro p hp v hv
            rw [convertProperty, convert_eq_convertUnder] at hv
            refine ihx _ (Data.find?_mem_parts members _) (hs.property hp) ?_ ?_ hv
            · intro u hu
              exact htabular _ (Table.mem_of_find? hu)
            · intro hclash
              exact hclear (.declared hp hclash)
          · intro m hm extra hextra w hw
            obtain rfl := Option.mem_def.1 hextra
            have hmem := (List.mem_filter.1 hm).1
            rw [convert_eq_convertUnder] at hw
            refine ihx _ (Data.mem_parts_of_mem_members hmem) hs.additional ?_ ?_ hw
            · rintro u ⟨⟩
              exact htabular m hmem
            · intro hclash
              exact hclear (.surplus hm hclash)
      | reference name ih =>
          obtain ⟨s, hname⟩ := hsound.resolves hs
          rw [convertUnder_reference hacyclic hname] at h
          rw [takes_reference_iff hacyclic hsound hname]
          refine ih s hname (.registered hname) ?_ h
          intro hclash
          exact hclear (.reference hname hclash)

/-! ## What the keys of a converted object are -/

/-- A key of a converted object is the new name of a property, or at least not an old one. -/
theorem mem_names_of_mem_converted {all : Table Data}
    (hsource : (properties.map d.sourceName).Nodup)
    (h : convertUnder r d owner x site (.object properties additional) = .ok (some (.object all)))
    {m : String × Data} (hm : m ∈ all) :
    m.1 ∈ properties.map d.targetName ∨ m.1 ∉ properties.map d.sourceName := by
  obtain ⟨members, vs, ws, rfl, _, _, hall⟩ := (convertUnder_object_eq_ok_iff hsource).1 h
  obtain rfl := Value.object.inj (Option.some.inj hall)
  rcases mem_storeAll hm with hm | hm
  · rcases mem_storeAll hm with hnil | hm
    · cases hnil
    · exact .inl (List.of_mem_zip hm).1
  · obtain ⟨e, he, heq⟩ := List.mem_map.1 (List.of_mem_zip hm).1
    rw [← heq]
    exact .inr (of_decide_eq_true (List.mem_filter.1 he).2)

theorem nodup_keys_of_eq_ok {all : Table Data} (hsource : (properties.map d.sourceName).Nodup)
    (h : convertUnder r d owner x site (.object properties additional) = .ok (some (.object all))) :
    (Table.keys all).Nodup := by
  obtain ⟨members, vs, ws, rfl, _, _, hall⟩ := (convertUnder_object_eq_ok_iff hsource).1 h
  obtain rfl := Value.object.inj (Option.some.inj hall)
  exact nodup_keys_storeAll _ (nodup_keys_storeAll _ List.nodup_nil)

/-! ## Objects that allow any undeclared key -/

/-- Where anything is allowed, an undeclared member is kept as it is. -/
theorem convertsSurplus_any_iff {m : String × Data} {o : Option Data} :
    ConvertsSurplus r d owner (some (.kind .any)) m o ↔ o = some m.2 := by
  have hany : ∀ site, convert r d (some m.2) site (.kind .any) = .ok o ↔ o = some m.2 := by
    intro site
    rw [convert_eq_convertUnder, convertUnder_kind_eq_ok_iff (by decide)]
    exact and_iff_right rfl
  constructor
  · rintro ⟨extra, hextra, h⟩
    obtain rfl := Option.some.inj hextra
    exact (hany _).1 h
  · intro h
    exact ⟨_, rfl, (hany _).2 h⟩

/-- Behind its declared members such an object has the undeclared ones, if they are apart. -/
theorem exists_declared_of_eq_ok (hacyclic : r.Acyclic)
    (hsource : (properties.map d.sourceName).Nodup)
    (htarget : (properties.map d.targetName).Nodup) (hkeys : (Table.keys members).Nodup)
    (hapart : ∀ m ∈ surplus d properties members, m.1 ∉ properties.map d.targetName)
    (h : convertUnder r d owner (some (.object members)) site
      (.object properties (some (.kind .any))) = .ok out) :
    ∃ vs, List.Forall₂ (fun p v => convertProperty r d owner members p = .ok v) properties vs ∧
      out = some (.object (present ((properties.map d.targetName).zip vs) ++
        surplus d properties members)) := by
  obtain ⟨vs, ws, hvs, hws, hout⟩ :=
    exists_parts_of_apart_eq_ok hacyclic hsource htarget hkeys hapart h
  have hvalues : List.Forall₂ (fun w m => w = Prod.snd m) ws (surplus d properties members) := by
    refine hws.flip.imp ?_
    intro w m hw
    exact Option.some.inj (convertsSurplus_any_iff.1 hw)
  rw [eq_map_of_forall₂ hvalues, Table.keys, List.zip_map', List.map_id''] at hout
  · exact ⟨vs, hvs, hout⟩
  · intro m
    rfl

/-- There are as many declared members afterwards as before. -/
theorem length_present (hacyclic : r.Acyclic) {vs : List (Option Data)}
    (name : Property Schema → String)
    (h : List.Forall₂ (fun p v => convertProperty r d owner members p = .ok v) properties vs) :
    (present ((properties.map name).zip vs)).length =
      (properties.filter fun p => (Table.find? members (d.sourceName p)).isSome).length := by
  induction h with
  | nil => rfl
  | @cons p v properties vs hv _ ih =>
      rw [convertProperty, convert_eq_convertUnder] at hv
      rw [List.map_cons, List.zip_cons_cons, List.filter_cons]
      -- what is present stays present and what is absent stays absent
      cases hfind : Table.find? members (d.sourceName p) with
      | none =>
          rw [hfind] at hv
          obtain rfl := eq_none_of_eq_ok hacyclic hv
          rw [present_cons_none, ih]
          rfl
      | some u =>
          rw [hfind] at hv
          obtain ⟨w, rfl⟩ := exists_some_of_eq_ok hacyclic hv
          rw [present_cons_some, List.length_cons, ih]
          rfl

/-- The members of an object are those under the names of properties and the others. -/
theorem length_filter_add_surplus (hsource : (properties.map d.sourceName).Nodup)
    (hkeys : (Table.keys members).Nodup) :
    (properties.filter fun p => (Table.find? members (d.sourceName p)).isSome).length +
      (surplus d properties members).length = members.length := by
  have hperm : ((properties.filter fun p =>
        (Table.find? members (d.sourceName p)).isSome).map d.sourceName).Perm
      (Table.keys (members.filter fun m => m.1 ∈ properties.map d.sourceName)) := by
    rw [List.perm_ext_iff_of_nodup]
    · intro key
      constructor
      · intro h
        obtain ⟨p, hp, rfl⟩ := List.mem_map.1 h
        obtain ⟨hp, hsome⟩ := List.mem_filter.1 hp
        obtain ⟨m, hm, heq⟩ := List.mem_map.1 (Table.isSome_find?_iff.1 hsome)
        refine List.mem_map.2 ⟨m, List.mem_filter.2 ⟨hm, decide_eq_true ?_⟩, heq⟩
        rw [heq]
        exact List.mem_map_of_mem hp
      · intro h
        obtain ⟨m, hm, rfl⟩ := List.mem_map.1 h
        obtain ⟨hm, hname⟩ := List.mem_filter.1 hm
        obtain ⟨p, hp, heq⟩ := List.mem_map.1 (of_decide_eq_true hname)
        refine List.mem_map.2 ⟨p, List.mem_filter.2 ⟨hp, ?_⟩, heq⟩
        rw [heq]
        exact Table.isSome_find?_iff.2 (Table.mem_keys_of_mem hm)
    · exact (List.filter_sublist.map d.sourceName).nodup hsource
    · exact (List.filter_sublist.map Prod.fst).nodup hkeys
  have hlength := hperm.length_eq
  rw [List.length_map, Table.keys, List.length_map] at hlength
  rw [hlength, surplus, List.length_eq_length_filter_add (l := members)
    (fun m => decide (m.1 ∈ properties.map d.sourceName))]
  simp only [decide_not]

/-- An object keeps its undeclared keys when it is converted into `all` and from there into `back`:
no member is lost, each undeclared key ends with the value that it had, and on neither way does it
meet a property under the same new name. -/
structure Carries (properties : List (Property Schema)) (members all back : Table Data) : Prop where
  length_eq : all.length = members.length
  find?_back : ∀ m ∈ surplus .toInternal properties members, Table.find? back m.1 = some m.2
  apart : ∀ m ∈ surplus .toInternal properties members, ∀ p ∈ properties,
    p.wireName ∈ Table.keys members → m.1 ≠ p.internalName
  apart_back : ∀ m ∈ surplus .toWire properties all, ∀ p ∈ properties,
    p.internalName ∈ Table.keys all → m.1 ≠ p.wireName

/-- Where no undeclared key is an internal name, an object keeps its undeclared keys. -/
theorem carries_of_apart (hacyclic : r.Acyclic) (hsound : r.Sound)
    (hs : r.Part (.object properties (some (.kind .any)))) (hkeys : (Table.keys members).Nodup)
    (hapart : ∀ m ∈ surplus .toInternal properties members,
      m.1 ∉ properties.map Property.internalName)
    {all back : Table Data}
    (h : convertUnder r .toInternal owner (some (.object members)) site
      (.object properties (some (.kind .any))) = .ok (some (.object all)))
    (hback : convertUnder r .toWire owner (some (.object all)) site
      (.object properties (some (.kind .any))) = .ok (some (.object back))) :
    Carries properties members all back := by
  have hwire := hsound.sourceNames hs .toInternal
  have hinternal := hsound.sourceNames hs .toWire
  obtain ⟨vs, hvs, hall⟩ := exists_declared_of_eq_ok hacyclic hwire
    (hsound.targetNames hs .toInternal) hkeys hapart h
  have hall := Value.object.inj (Option.some.inj hall)
  -- the undeclared members of the converted object are those that there were
  have hsurplus : surplus .toWire properties all = surplus .toInternal properties members := by
    rw [hall]
    exact surplus_declared_append hapart
  have hother : ∀ m ∈ surplus .toInternal properties members,
      m.1 ∉ properties.map Property.wireName := by
    intro m hm
    exact of_decide_eq_true (List.mem_filter.1 hm).2
  obtain ⟨us, _, hout⟩ := exists_declared_of_eq_ok hacyclic hinternal
    (hsound.targetNames hs .toWire) (nodup_keys_of_eq_ok hwire h) (hsurplus ▸ hother) hback
  refine ⟨?_, ?_, ?_, ?_⟩
  · rw [hall, List.length_append, length_present hacyclic _ hvs,
      length_filter_add_surplus hwire hkeys]
  · intro m hm
    obtain rfl := Value.object.inj (Option.some.inj hout)
    have hnone : Table.find? (present ((properties.map Property.wireName).zip us)) m.1 = none := by
      rw [Table.find?_eq_none_iff]
      intro hkey
      obtain ⟨e, he, heq⟩ := List.mem_map.1 hkey
      apply hother m hm
      rw [← heq]
      exact (List.of_mem_zip (mem_present he)).1
    rw [hsurplus, Table.find?_append]
    rw [show Direction.toWire.targetName = Property.wireName from rfl, hnone, Option.none_or]
    exact Table.find?_of_mem (nodup_keys_surplus _ _ hkeys) hm
  · intro m hm p hp _ heq
    apply hapart m hm
    rw [heq]
    exact List.mem_map_of_mem hp
  · intro m hm p hp _ heq
    rw [hsurplus] at hm
    apply hother m hm
    rw [heq]
    exact List.mem_map_of_mem hp

/-- Over a registry without issues, undeclared keys of an object with any of them allowed survive
the way there and back exactly if none of them is an internal name, provided that no name clashes
further inside. -/
theorem surplus_carried_iff (hissues : r.issues = []) (hacyclic : r.Acyclic) {name : String}
    (hname : r.find? name = some (.object properties (some (.kind .any))))
    (htabular : (Value.object members : Data).Tabular)
    (hinner : ∀ p ∈ properties,
      ¬ Clashes r .toInternal (Table.find? members p.wireName) p.schema)
    {w : Data} (hcast : cast r name (.object members) = .ok w) :
    (∃ all back, w = .object all ∧ uncast r name w = .ok (.object back) ∧
        Carries properties members all back) ↔
      ∀ m ∈ surplus .toInternal properties members,
        m.1 ∉ properties.map Property.internalName := by
  have hsound := Registry.sound_of_issues_eq_nil hissues
  have hs : r.Part (.object properties (some (.kind .any))) := .registered hname
  rw [cast, run_eq_ok_iff hacyclic, convertUnder_reference hacyclic hname] at hcast
  have huncast : ∀ {b : Data}, uncast r name w = .ok b ↔ convertUnder r .toWire (some name)
      (some w) .root (.object properties (some (.kind .any))) = .ok (some b) := by
    intro b
    rw [uncast, run_eq_ok_iff hacyclic, convertUnder_reference hacyclic hname]
  constructor
  · rintro ⟨all, back, rfl, hback, hcarries⟩ m hm hclash
    -- on the way back the key is taken for a declared one, and its value leaves it
    have hfound := Table.mem_of_find? (hcarries.find?_back m hm)
    rw [huncast] at hback
    rcases mem_names_of_mem_converted (hsound.sourceNames hs .toWire) hback
      hfound with hwire | hnot
    · exact of_decide_eq_true (List.mem_filter.1 hm).2 hwire
    · exact hnot hclash
  · intro hapart
    have hclear : ¬ Clashes r .toInternal (some (.object members))
        (.object properties (some (.kind .any))) := by
      intro hclash
      cases hclash with
      | here hm hclash => exact hapart _ hm hclash
      | declared hp hclash => exact hinner _ hp hclash
      | surplus hm hclash => exact not_clashes_kind hclash
    have htakes := takes_back hacyclic hsound hs (by rintro v ⟨⟩; exact htabular) hclear hcast
    obtain ⟨b, hb⟩ := (exists_eq_ok_iff hacyclic hsound hs).2 htakes
    obtain ⟨all, back, hall, rfl⟩ := exists_object_of_eq_ok hb
    obtain rfl := Option.some.inj hall
    refine ⟨all, back, rfl, huncast.2 hb, ?_⟩
    exact carries_of_apart hacyclic hsound hs (Value.tabular_object.1 htabular).1 hapart hcast hb

/-- Objects with any keys, of which `a` is renamed to `b`. -/
def openObjects : Registry :=
  Registry.ofList [("Open", .object [⟨"a", "b", .optional (.kind .any)⟩] (some (.kind .any)))]

theorem openObjects_acyclic : openObjects.Acyclic := by
  refine Registry.acyclic_of_rank (fun _ => 0) ?_
  intro p hp name hname
  obtain rfl := List.mem_singleton.1 hp
  cases hname

/-- An undeclared key beside `a` survives, since neither name of the declared one is its own. -/
theorem openObjects_surplus_carried :
    ∃ all back,
      cast openObjects "Open" (.object [("c", .bool true), ("a", .null)]) = .ok (.object all) ∧
      uncast openObjects "Open" (.object all) = .ok (.object back) ∧
      Carries [⟨"a", "b", .optional (.kind .any)⟩] [("c", .bool true), ("a", .null)] all back := by
  have hcast : cast openObjects "Open" (.object [("c", .bool true), ("a", .null)]) =
      .ok (.object [("b", .null), ("c", .bool true)]) := rfl
  have hcarried := surplus_carried_iff (by decide +kernel) openObjects_acyclic rfl (by decide)
    ?_ hcast
  · obtain ⟨all, back, hall, hback, hcarries⟩ := hcarried.2 (by decide)
    obtain rfl := Value.object.inj hall
    exact ⟨_, back, hcast, hback, hcarries⟩
  · intro p hp hclash
    obtain rfl := List.mem_singleton.1 hp
    obtain ⟨c, hc, hclash⟩ := exists_of_clashes_union hclash
    obtain ⟨k, rfl⟩ : ∃ k, c = .kind k := by
      simp only [List.mem_cons, List.not_mem_nil, or_false] at hc
      rcases hc with rfl | rfl
      · exact ⟨_, rfl⟩
      · exact ⟨_, rfl⟩
    exact not_clashes_kind hclash

/-- An undeclared key that is called `b` comes back as `a`, and beside an `a` it takes its place.
Declared members and undeclared keys go into one table, and `b` is the other name of `a`. -/
theorem openObjects_surplus_lost :
    openObjects.issues = [] ∧
    cast openObjects "Open" (.object [("b", .bool true)]) = .ok (.object [("b", .bool true)]) ∧
    uncast openObjects "Open" (.object [("b", .bool true)]) = .ok (.object [("a", .bool true)]) ∧
    cast openObjects "Open" (.object [("a", .null), ("b", .bool true)]) =
      .ok (.object [("b", .bool true)]) :=
  ⟨by decide +kernel, rfl, rfl, rfl⟩

end Agenda.Engine
