/-
The document of a registry says what the engine does.

A value fits the document of a registry under a name exactly if it can be converted under that name.
There is one reading of the addresses in the document that is right, and it is the one by which a
definition takes what the engine takes under its name.

The document does not look through references, and it has no word for a value that is absent, so two
things are asked of the registry: `absent` stands in unions only, and whether a key may be missing
shows in the schema of its property, up to the references in it.
-/
import Agenda.Proofs.Conversion.Acceptance
import Agenda.Proofs.Schema.Validation

set_option autoImplicit false

namespace Agenda

/-! ## The conditions on a registry -/

namespace Registry

/-- The schema `absent` stands nowhere but among the candidates of a union. There an export leaves
it out; anywhere else its keywords would say nothing of it. -/
structure AbsentInUnions (r : Registry) : Prop where
  registered (name : String) : r.find? name ≠ some (.kind .absent)
  element : ¬ r.Part (.array (.kind .absent))
  property {properties : List (Property Schema)} {additional : Option Schema}
    (h : r.Part (.object properties additional)) {p : Property Schema} (hp : p ∈ properties) :
    p.schema ≠ .kind .absent
  additional {properties : List (Property Schema)}
    (h : r.Part (.object properties (some (.kind .absent)))) : False

/-- No property leads to `any` or to `absent` through a reference. Whether a key is required is read
off the schema as it stands, so what a reference hides does not show. -/
def ShowsOptional (r : Registry) : Prop :=
  ∀ properties additional, r.Part (.object properties additional) → ∀ p ∈ properties,
    ∀ name ∈ p.schema.exposed,
      ¬ r.Reaches .any (.reference name) ∧ ¬ r.Reaches .absent (.reference name)

end Registry

/-! ## Parts of the document -/

namespace Schema

theorem anyOptional_iff {candidates : List Schema} :
    anyOptional candidates = true ↔ ∃ c ∈ candidates, c.isOptional = true := by
  induction candidates with
  | nil => simp [anyOptional]
  | cons c rest ih => rw [anyOptional, Bool.or_eq_true, ih, List.exists_mem_cons_iff]

/-- A schema leads to `any` or to `absent` if it is optional, or through one of its references. The
export sees the first and not the second. -/
theorem reaches_iff_isOptional {r : Registry} {s : Schema} :
    r.Reaches .any s ∨ r.Reaches .absent s ↔ s.isOptional = true ∨ ∃ name ∈ s.exposed,
      r.Reaches .any (.reference name) ∨ r.Reaches .absent (.reference name) := by
  induction s with
  | kind k =>
      rw [Registry.reaches_kind_iff, Registry.reaches_kind_iff]
      cases k <;> simp [isOptional, exposed]
  | literals words distinct =>
      have hnot : ∀ k, ¬ r.Reaches k (.literals words distinct) := fun k h => by cases h
      simp [isOptional, exposed, hnot]
  | array element _ =>
      have hnot : ∀ k, ¬ r.Reaches k (.array element) := fun k h => by cases h
      simp [isOptional, exposed, hnot]
  | union candidates ih =>
      rw [isOptional, anyOptional_iff, Registry.reaches_union_iff, Registry.reaches_union_iff,
        ← exists_or]
      simp only [← and_or_left, mem_exposed_union]
      constructor
      · rintro ⟨c, hc, h⟩
        rcases (ih c hc).1 h with hoptional | ⟨name, hname, h⟩
        · exact .inl ⟨c, hc, hoptional⟩
        · exact .inr ⟨name, ⟨c, hc, hname⟩, h⟩
      · rintro (⟨c, hc, hoptional⟩ | ⟨name, ⟨c, hc, hname⟩, h⟩)
        · exact ⟨c, hc, (ih c hc).2 (.inl hoptional)⟩
        · exact ⟨c, hc, (ih c hc).2 (.inr ⟨name, hname, h⟩)⟩
  | object properties additional _ _ =>
      have hnot : ∀ k, ¬ r.Reaches k (.object properties additional) := fun k h => by cases h
      simp [isOptional, exposed, hnot]
  | reference name => simp [isOptional]

/-- A schema whose references do not lead to `any` or to `absent` leads there exactly if it is
optional. -/
theorem isOptional_iff {r : Registry} {s : Schema}
    (h : ∀ name ∈ s.exposed,
      ¬ r.Reaches .any (.reference name) ∧ ¬ r.Reaches .absent (.reference name)) :
    s.isOptional = true ↔ r.Reaches .any s ∨ r.Reaches .absent s := by
  rw [reaches_iff_isOptional, iff_self_or]
  rintro ⟨name, hname, hany | habsent⟩
  · exact absurd hany (h name hname).1
  · exact absurd habsent (h name hname).2

/-- A name is required if some property of that name is not optional. -/
theorem mem_requiredNames_iff {properties : List (Property Schema)} {name : String} :
    name ∈ requiredNames properties ↔
      ∃ p ∈ properties, ¬ p.schema.isOptional = true ∧ p.wireName = name := by
  induction properties with
  | nil => simp [requiredNames]
  | cons p rest ih =>
      rw [requiredNames, List.exists_mem_cons_iff, ← ih]
      split
      · rename_i hoptional
        simp [hoptional]
      · rename_i hoptional
        simp [hoptional, eq_comm]

theorem propertyKeywords_eq_map (properties : List (Property Schema)) :
    propertyKeywords properties = properties.map fun p => (p.wireName, p.schema.keywords) := by
  induction properties with
  | nil => rfl
  | cons p rest ih => rw [propertyKeywords, ih, List.map_cons]

theorem mem_propertyKeywords {properties : List (Property Schema)} {p : Property Schema}
    (hp : p ∈ properties) : (p.wireName, p.schema.keywords) ∈ propertyKeywords properties := by
  rw [propertyKeywords_eq_map]
  exact List.mem_map.2 ⟨p, hp, rfl⟩

theorem keys_propertyKeywords (properties : List (Property Schema)) :
    Table.keys (propertyKeywords properties) = properties.map Property.wireName := by
  rw [propertyKeywords_eq_map, Table.keys, List.map_map]
  rfl

/-- The candidates of a union, absence left out. -/
def arms : List Schema → List Schema
  | [] => []
  | kind .absent :: rest => arms rest
  | s :: rest => s :: arms rest

theorem arms_cons {c : Schema} (hc : c ≠ .kind .absent) (rest : List Schema) :
    arms (c :: rest) = c :: arms rest := by
  rw [arms]
  exact hc

theorem mem_arms_iff {candidates : List Schema} {c : Schema} :
    c ∈ arms candidates ↔ c ∈ candidates ∧ c ≠ .kind .absent := by
  induction candidates with
  | nil => simp [arms]
  | cons d rest ih =>
      by_cases hd : d = .kind .absent
      · subst hd
        rw [arms, ih, List.mem_cons, or_and_right, and_not_self_iff, false_or]
      · rw [arms_cons hd, List.mem_cons, List.mem_cons, ih, or_and_right]
        refine or_congr_left ⟨?_, And.left⟩
        rintro rfl
        exact ⟨rfl, hd⟩

/-- The keywords of a union are those of its candidates, absence left out. -/
theorem armKeywords_eq_map (candidates : List Schema) :
    armKeywords candidates = (arms candidates).map keywords := by
  induction candidates with
  | nil => rfl
  | cons c rest ih =>
      by_cases hc : c = .kind .absent
      · subst hc
        rw [armKeywords, arms, ih]
      · rw [arms_cons hc, List.map_cons, ← ih, armKeywords]
        exact hc

theorem mem_armKeywords_iff {candidates : List Schema} {arm : Json} :
    arm ∈ armKeywords candidates ↔ ∃ c ∈ candidates, c ≠ .kind .absent ∧ c.keywords = arm := by
  simp only [armKeywords_eq_map, List.mem_map, mem_arms_iff, and_assoc]

/-- The schema of the keys that an object does not declare. -/
def additionalKeywords : Option Schema → Json
  | none => .bool false
  | some extra => extra.keywords

theorem keywords_object (properties : List (Property Schema)) (additional : Option Schema) :
    (object properties additional).keywords =
      objectKeywords (requiredNames properties) (propertyKeywords properties)
        (additionalKeywords additional) := by
  cases additional <;> rfl

theorem fits_additionalKeywords_iff {ref : Reading} {v : Json} {additional : Option Schema} :
    Fits ref (additionalKeywords additional) v ↔
      ∃ extra ∈ additional, Fits ref extra.keywords v := by
  cases additional <;> simp [additionalKeywords, Fits]

end Schema

/-! ## Definitions and the engine -/

section

open Engine

variable {r : Registry} {ref : Reading} {v : Json}

/-- A timestamp is null or a text that denotes an instant. The keywords name the format, and what
the format takes is given by the meaning of the keywords. -/
theorem fits_timestampKeywords_iff :
    Fits ref (Schema.kindKeywords .timestamp) v ↔
      Takes r .toInternal (some v.lift) (.kind .timestamp) := by
  rw [takes_timestamp_iff]
  cases v with
  | atom a => exact a.elim
  | string s =>
      simp [Schema.kindKeywords, Schema.jsonObject, Fits, FitsKeywords, FitsOne, FitsSome, Asserts,
        Json.typeName, instantOf?, Option.isSome_iff_exists]
  | _ =>
      simp [Schema.kindKeywords, Schema.jsonObject, Fits, FitsKeywords, FitsOne, FitsSome, Asserts,
        Json.typeName, instantOf?]

/-- Of every other kind the keywords say the type, and the engine looks at the constructor, which
comes to the same. -/
theorem fits_kindKeywords_iff {k : Kind} (hk : k ≠ .absent) :
    Fits ref (Schema.kindKeywords k) v ↔ Takes r .toInternal (some v.lift) (.kind k) := by
  by_cases htimestamp : k = .timestamp
  · subst htimestamp
    exact fits_timestampKeywords_iff
  · rw [takes_kind_iff htimestamp]
    cases v with
    | atom a => exact a.elim
    | _ =>
        cases k <;> simp_all [Schema.kindKeywords, Schema.jsonObject, Fits, FitsKeywords, Asserts,
          Json.typeName, admits]

/-- An array fits its definition exactly if the engine takes it, provided that this holds of its
elements. -/
theorem fits_arrayDefinition_iff (hacyclic : r.Acyclic) {element : Schema}
    (hitem : ∀ vs, v = .array vs → ∀ u ∈ vs,
      (Fits ref element.keywords u ↔ Takes r .toInternal (some (Json.lift u)) element)) :
    Fits ref (Schema.array element).keywords v ↔
      Takes r .toInternal (some v.lift) (.array element) := by
  rw [Schema.keywords, Schema.fits_arrayKeywords_iff, takes_array_iff hacyclic]
  constructor
  · rintro ⟨vs, rfl, h⟩
    refine ⟨_, congrArg some (Json.lift_array vs), List.forall_mem_map.2 fun u hu => ?_⟩
    exact (hitem vs rfl u hu).1 (h u hu)
  · rintro ⟨items, hitems, h⟩
    obtain ⟨vs, rfl, rfl⟩ := Json.exists_of_lift_eq_array (Option.some.inj hitems)
    exact ⟨vs, rfl, fun u hu => (hitem vs rfl u hu).2 (List.forall_mem_map.1 h u hu)⟩

/-- A value fits the definition of a union exactly if the engine takes it, provided that this holds
of the candidates that are not left out. -/
theorem fits_unionDefinition_iff (hacyclic : r.Acyclic) (hsound : r.Sound)
    {candidates : List Schema} (hs : r.Part (.union candidates))
    (hcandidate : ∀ c ∈ candidates, c ≠ .kind .absent →
      (Fits ref c.keywords v ↔ Takes r .toInternal (some v.lift) c)) :
    Fits ref (Schema.union candidates).keywords v ↔
      Takes r .toInternal (some v.lift) (.union candidates) := by
  rw [Schema.keywords, Schema.fits_unionKeywords_iff, takes_union_iff hacyclic hsound hs]
  simp only [Schema.mem_armKeywords_iff]
  constructor
  · rintro ⟨_, ⟨c, hc, hne, rfl⟩, h⟩
    exact ⟨c, hc, (hcandidate c hc hne).1 h⟩
  · rintro ⟨c, hc, h⟩
    -- a value that is there is never taken by the candidate that is left out
    have hne : c ≠ .kind .absent := by
      rintro rfl
      rw [takes_kind_iff (by decide)] at h
      simp [admits] at h
    exact ⟨_, ⟨c, hc, hne, rfl⟩, (hcandidate c hc hne).2 h⟩

/-- What stands under a declared name is taken exactly if it is there or need not be, and fits. The
engine asks one question here and the keywords two. -/
theorem takes_declared_iff (hacyclic : r.Acyclic) (hsound : r.Sound) {s : Schema} (hs : r.Part s)
    (hoptional : ∀ name ∈ s.exposed,
      ¬ r.Reaches .any (.reference name) ∧ ¬ r.Reaches .absent (.reference name))
    {ms : Table Json} {key : String}
    (hmember : ∀ u, Table.find? ms key = some u →
      (Fits ref s.keywords u ↔ Takes r .toInternal (some u.lift) s)) :
    Takes r .toInternal (Table.find? (ms.map fun m => (m.1, Json.lift m.2)) key) s ↔
      (¬ s.isOptional = true → key ∈ Table.keys ms) ∧
        ∀ u, Table.find? ms key = some u → Fits ref s.keywords u := by
  rw [Table.find?_map, ← Table.isSome_find?_iff]
  cases hkey : Table.find? ms key with
  | none =>
      rw [Option.map_none, takes_none_iff hacyclic hsound hs, ← Schema.isOptional_iff hoptional]
      simp
  | some u => simp [hmember u hkey]

/-- An object fits its definition exactly if the engine takes it, provided that this holds of its
members. -/
theorem fits_objectDefinition_iff (hacyclic : r.Acyclic) (hsound : r.Sound)
    (habsent : r.AbsentInUnions) (hoptional : r.ShowsOptional)
    {properties : List (Property Schema)} {additional : Option Schema}
    (hs : r.Part (.object properties additional))
    (hmember : ∀ ms, v = .object ms → ∀ m ∈ ms, ∀ s, r.Part s → s ≠ .kind .absent →
      (Fits ref s.keywords m.2 ↔ Takes r .toInternal (some (Json.lift m.2)) s)) :
    Fits ref (Schema.object properties additional).keywords v ↔
      Takes r .toInternal (some v.lift) (.object properties additional) := by
  have hnames : (Table.keys (Schema.propertyKeywords properties)).Nodup := by
    rw [Schema.keys_propertyKeywords]
    exact hsound.wireNames hs
  rw [Schema.keywords_object, Schema.fits_objectKeywords_iff hnames,
    takes_object_iff hacyclic hsound hs]
  by_cases hv : ∃ ms, v = .object ms
  · obtain ⟨ms, rfl⟩ := hv
    have hdeclared : ∀ p ∈ properties, Takes r .toInternal
        (Table.find? (ms.map fun m => (m.1, Json.lift m.2)) p.wireName) p.schema ↔
        (¬ p.schema.isOptional = true → p.wireName ∈ Table.keys ms) ∧
          ∀ u, Table.find? ms p.wireName = some u → Fits ref p.schema.keywords u := by
      intro p hp
      refine takes_declared_iff hacyclic hsound (hs.property hp) (hoptional _ _ hs p hp) ?_
      intro u hu
      exact hmember ms rfl _ (Table.mem_of_find? hu) _ (hs.property hp) (habsent.property hs hp)
    have hother : ∀ m ∈ ms, Fits ref (Schema.additionalKeywords additional) m.2 ↔
        ∃ extra ∈ additional, Takes r .toInternal (some (Json.lift m.2)) extra := by
      intro m hm
      rw [Schema.fits_additionalKeywords_iff]
      refine exists_congr fun extra => and_congr_right fun hextra => ?_
      cases hextra
      exact hmember ms rfl m hm extra hs.additional fun h => habsent.additional (h ▸ hs)
    have hsurplus : (∀ m ∈ surplus .toInternal properties (ms.map fun m => (m.1, Json.lift m.2)),
        ∃ extra ∈ additional, Takes r .toInternal (some m.2) extra) ↔
        ∀ m ∈ ms, m.1 ∉ properties.map Property.wireName →
          Fits ref (Schema.additionalKeywords additional) m.2 := by
      simp only [surplus, List.mem_filter, List.mem_map, decide_eq_true_eq, and_imp,
        forall_exists_index, forall_apply_eq_imp_iff₂]
      exact forall₂_congr fun m hm => imp_congr_right fun _ => (hother m hm).symm
    rw [Json.lift_object, Schema.keys_propertyKeywords]
    constructor
    · rintro ⟨_, ⟨⟩, hrequired, hfits, hadditional⟩
      refine ⟨_, rfl, fun p hp => (hdeclared p hp).2 ⟨fun hmissing => ?_, ?_⟩,
        hsurplus.2 hadditional⟩
      · exact hrequired _ (Schema.mem_requiredNames_iff.2 ⟨p, hp, hmissing, rfl⟩)
      · exact hfits _ (Schema.mem_propertyKeywords hp)
    · rintro ⟨_, ⟨⟩, htakes, hadditional⟩
      refine ⟨ms, rfl, fun name hname => ?_, fun q hq => ?_, hsurplus.1 hadditional⟩
      · obtain ⟨p, hp, hmissing, rfl⟩ := Schema.mem_requiredNames_iff.1 hname
        exact ((hdeclared p hp).1 (htakes p hp)).1 hmissing
      · rw [Schema.propertyKeywords_eq_map] at hq
        obtain ⟨p, hp, rfl⟩ := List.mem_map.1 hq
        exact ((hdeclared p hp).1 (htakes p hp)).2
  · rw [not_exists] at hv
    have hlift : ∀ members, some v.lift ≠ some (.object members) := by
      intro members h
      obtain ⟨ms, rfl, _⟩ := Json.exists_of_lift_eq_object (Option.some.inj h)
      exact hv ms rfl
    simp only [hv, hlift, false_and, exists_false]

/-- A value fits the definition of a schema exactly if the engine takes it, under a reading by which
this carries over from a definition to its address. -/
theorem fits_keywords_iff (hacyclic : r.Acyclic) (hsound : r.Sound) (habsent : r.AbsentInUnions)
    (hoptional : r.ShowsOptional)
    (href : ∀ name s v, r.find? name = some s →
      (Fits ref s.keywords v ↔ Takes r .toInternal (some v.lift) s) →
      (ref (Schema.address name) v ↔ Takes r .toInternal (some v.lift) s))
    {s : Schema} (hs : r.Part s) (hne : s ≠ .kind .absent) :
    Fits ref s.keywords v ↔ Takes r .toInternal (some v.lift) s := by
  -- the parts of a value are those of the lifted one
  generalize hx : some v.lift = x
  induction x using Data.parts_induction generalizing s v with
  | step x ihx =>
      induction s using Registry.Acyclic.induction hacyclic with
      | kind k =>
          rw [Schema.keywords, ← hx]
          exact fits_kindKeywords_iff fun hk => hne (hk ▸ rfl)
      | literals words distinct =>
          rw [Schema.keywords, Schema.fits_literalKeywords_iff, takes_literals_iff, ← hx]
          refine exists_congr fun s => and_congr_right fun _ => ?_
          cases v with
          | atom a => exact a.elim
          | _ => simp
      | array element =>
          rw [← hx]
          refine fits_arrayDefinition_iff hacyclic ?_
          rintro vs rfl u hu
          refine ihx (some (Json.lift u)) ?_ hs.element (fun h => habsent.element (h ▸ hs)) rfl
          rw [← hx, Json.lift_array]
          exact Data.mem_parts_of_mem_items (List.mem_map_of_mem hu)
      | union candidates ih =>
          subst hx
          exact fits_unionDefinition_iff hacyclic hsound hs fun c hc =>
            ih c hc (hs.candidate hc)
      | object properties additional =>
          rw [← hx]
          refine fits_objectDefinition_iff hacyclic hsound habsent hoptional hs ?_
          rintro ms rfl m hm s hpart hne
          refine ihx (some (Json.lift m.2)) ?_ hpart hne rfl
          rw [← hx, Json.lift_object]
          exact Data.mem_parts_of_mem_members (List.mem_map.2 ⟨m, hm, rfl⟩)
      | reference name ih =>
          obtain ⟨s, hname⟩ := hsound.resolves hs
          have hpart : r.Part s := .registered hname
          rw [Schema.fits_reference_iff, takes_reference_iff hacyclic hsound hname]
          subst hx
          refine href name s v hname (ih s hname hpart ?_)
          exact fun h => habsent.registered name (h ▸ hname)

end

/-! ## Readings of a document -/

/-- A reading says of every address what the schema there says: the text behind `#/$defs/` names a
definition, and other addresses lead nowhere. -/
def Reading.Resolves (ref : Reading) (document : Json) : Prop :=
  ∀ address v, ref address v ↔ ∃ name definitions schema, address = "#/$defs/" ++ name ∧
    document.get? "$defs" = some definitions ∧ definitions.get? name = some schema ∧
    Fits ref schema v

section

open Engine

variable {r : Registry} {ref : Reading} {root : String} {document v : Json}

/-- The reading by which a definition takes what the engine takes under its name. It is shown to be
the one reading that a document has, by induction over values and schemas. -/
def Registry.reading (r : Registry) : Reading := fun address v =>
  ∃ name s, address = Schema.address name ∧ r.find? name = some s ∧
    Takes r .toInternal (some v.lift) s

theorem Schema.address_inj {a b : String} (h : Schema.address a = Schema.address b) : a = b :=
  (String.append_right_inj _).1 h

/-- What holds of some schema at an address holds of the one schema there. -/
theorem Registry.exists_at_address_iff {P : Schema → Prop} {name : String} {s : Schema}
    (hname : r.find? name = some s) :
    (∃ other t, Schema.address name = Schema.address other ∧ r.find? other = some t ∧ P t) ↔
      P s := by
  constructor
  · rintro ⟨other, t, haddress, hother, h⟩
    obtain rfl := Schema.address_inj haddress
    obtain rfl : s = t := Option.some.inj (hname ▸ hother)
    exact h
  · exact fun h => ⟨name, s, rfl, hname, h⟩

/-- There is a document for every registered name, and it differs from the others in its first
reference only. -/
theorem Registry.jsonSchema?_eq_some_iff :
    r.jsonSchema? root = some document ↔ root ∈ r.names ∧ document =
      .object [("$schema", .string "https://json-schema.org/draft/2020-12/schema"),
        ("$ref", .string (Schema.address root)),
        ("$defs", .object (r.schemas.map fun p => (p.1, p.2.keywords)))] := by
  rw [Registry.jsonSchema?, Registry.names, ← Table.isSome_find?_iff, ← Registry.find?]
  split
  · simp [*, eq_comm]
  · simp [*]

/-- In the document of a registry an address leads to the schema under its name, and to nothing
else, since names that differ have different addresses. -/
theorem Reading.resolves_jsonSchema_iff (h : r.jsonSchema? root = some document) :
    ref.Resolves document ↔ ∀ address v, ref address v ↔
      ∃ name s, address = Schema.address name ∧ r.find? name = some s ∧ Fits ref s.keywords v := by
  obtain ⟨-, rfl⟩ := Registry.jsonSchema?_eq_some_iff.1 h
  rw [Reading.Resolves]
  refine forall₂_congr fun address v => iff_congr Iff.rfl (exists_congr fun name => ?_)
  simp [Value.get?, Table.find?, Table.find?_map, Schema.address, Registry.find?]

/-- The root of a document is an address, and what stands beside it says nothing. -/
theorem fits_jsonSchema_iff (h : r.jsonSchema? root = some document) :
    Fits ref document v ↔ ref (Schema.address root) v := by
  obtain ⟨-, rfl⟩ := Registry.jsonSchema?_eq_some_iff.1 h
  simp [Fits, FitsKeywords, Asserts]

/-- The document of a registry says exactly what the engine takes: there is one way to read its
addresses, and so read, a value fits the document of a name if it can be converted under that
name. -/
theorem exists_cast_eq_ok_iff_fits (hissues : r.issues = []) (hacyclic : r.Acyclic)
    (habsent : r.AbsentInUnions) (hoptional : r.ShowsOptional) (hroot : root ∈ r.names) :
    ∃ document, r.jsonSchema? root = some document ∧ (∃! ref : Reading, ref.Resolves document) ∧
      ∀ ref : Reading, ref.Resolves document →
        ∀ v : Json, (∃ d, Engine.cast r root v.lift = .ok d) ↔ Fits ref document v := by
  have hsound := Registry.sound_of_issues_eq_nil hissues
  obtain ⟨document, hdocument⟩ : ∃ document, r.jsonSchema? root = some document :=
    ⟨_, Registry.jsonSchema?_eq_some_iff.2 ⟨hroot, rfl⟩⟩
  -- under every right reading, and under that of the engine, definitions say what the engine does
  have hdefinition : ∀ ref : Reading,
      (∀ name s v, r.find? name = some s →
        (Fits ref s.keywords v ↔ Takes r .toInternal (some v.lift) s) →
        (ref (Schema.address name) v ↔ Takes r .toInternal (some v.lift) s)) →
      ∀ name s v, r.find? name = some s →
        (Fits ref s.keywords v ↔ Takes r .toInternal (some v.lift) s) :=
    fun ref href name s v hname => fits_keywords_iff hacyclic hsound habsent hoptional href
      (.registered hname) fun h => habsent.registered name (h ▸ hname)
  have hright : ∀ ref : Reading, ref.Resolves document → ref = r.reading := by
    intro ref href
    rw [Reading.resolves_jsonSchema_iff hdocument] at href
    have hfits := hdefinition ref fun name s v hname hiff => by
      rw [← hiff, href, Registry.exists_at_address_iff hname]
    funext address v
    rw [href, Registry.reading, eq_iff_iff]
    refine exists₂_congr fun name s => and_congr_right fun _ => and_congr_right fun hname => ?_
    exact hfits name s v hname
  have hreading : r.reading.Resolves document := by
    have hfits := hdefinition r.reading fun name s v hname _ =>
      Registry.exists_at_address_iff hname
    rw [Reading.resolves_jsonSchema_iff hdocument]
    intro address v
    refine exists₂_congr fun name s => and_congr_right fun _ => and_congr_right fun hname => ?_
    exact (hfits name s v hname).symm
  refine ⟨document, hdocument, ⟨r.reading, hreading, hright⟩, fun ref href v => ?_⟩
  obtain rfl := hright ref href
  obtain ⟨s, hname⟩ := Registry.mem_names_iff.1 hroot
  rw [Engine.cast, exists_run_eq_ok_iff hacyclic, takes_reference_iff hacyclic hsound hname,
    fits_jsonSchema_iff hdocument, Registry.reading, Registry.exists_at_address_iff hname]

end

end Agenda
