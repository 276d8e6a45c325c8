/-
The typed and the untyped way through a document, side by side.

A JSON value is converted to internal names, and from there two ways lead on: the converted value is
taken back to the wire, or a form reads it as a typed value. What comes out of the first is the
rendering of what comes out of the second, but for one thing. Where a value may be left out, null
and nothing are read alike, and a rendering leaves it out; the untyped way keeps the null. So the
two agree wherever nothing can be left out, and in a record of such values they agree row by row up
to the nulls of the rows that can.
-/
import Agenda.Proofs.Document.Accepted
import Agenda.Proofs.Lists

set_option autoImplicit false

namespace Agenda

open Engine

variable {r : Registry} {site : Site}

/-! ## What can be left out -/

namespace Value

variable {α : Type}

/-- Whether a value is null. -/
def isNull : Value α → Bool
  | null => true
  | _ => false

/-- The members that remain when nulls under some names are left out. -/
def keptMembers (names : List String) (members : Table (Value α)) : Table (Value α) :=
  members.filter fun m => !(decide (m.1 ∈ names) && m.2.isNull)

theorem keptMembers_nil (members : Table (Value α)) : keptMembers [] members = members := by
  simp [keptMembers]

theorem keptMembers_cons_of_notMem {names : List String} {key : String} (hkey : key ∉ names)
    (v : Value α) (members : Table (Value α)) :
    keptMembers names ((key, v) :: members) = (key, v) :: keptMembers names members := by
  simp [keptMembers, hkey]

theorem keptMembers_cons_string (names : List String) (key text : String)
    (members : Table (Value α)) :
    keptMembers names ((key, string text) :: members) =
      (key, string text) :: keptMembers names members := by
  simp [keptMembers, isNull]

theorem keptMembers_cons_null {names : List String} {key : String} (hkey : key ∈ names)
    (members : Table (Value α)) :
    keptMembers names ((key, null) :: members) = keptMembers names members := by
  simp [keptMembers, isNull, hkey]

/-- An object without its nulls under some names. Any other value is left alone. -/
def withoutNulls (names : List String) : Value α → Value α
  | object members => object (keptMembers names members)
  | v => v

end Value

mutual

/-- Nothing in a value of this form can be left out. -/
def Fit.complete {α : Type} {form : Form α} {s : Schema} : Fit r form s → Bool
  | .list fit => fit.complete
  | .reference _ fit => fit.complete
  | .record _ _ _ _ _ _ fit => fit.omits []
  | _ => true

/-- The fields that a record may leave out are those with these wire names, and nothing inside a
field can be left out. -/
def FieldsFit.omits {ρ : Type} {fields : Fields ρ} {properties : List (Property Schema)}
    (fit : FieldsFit r properties fields) (names : List String) : Bool :=
  match fit with
  | .nil => true
  | .required p fit others => !decide (p.wireName ∈ names) && fit.complete && others.omits names
  | .nullable p _ others => !decide (p.wireName ∈ names) && others.omits names
  | .omittable p _ others => decide (p.wireName ∈ names) && others.omits names

end

/-- The same for a form that describes a record. -/
def Fit.omits {α : Type} {form : Form α} {s : Schema} (fit : Fit r form s) (names : List String) :
    Bool :=
  match fit with
  | .reference _ fit => fit.omits names
  | .record _ _ _ _ _ _ fit => fit.omits names
  | _ => false

/-! ## The two ways -/

/-- Some JSON value is converted to one that is taken back to `z` and read as `a`. -/
def Passes (r : Registry) {α : Type} (form : Form α) (s : Schema) (z : Data) (a : α) : Prop :=
  ∃ (v : Json) (d : Data),
    (∃ owner site, convertUnder r .toInternal owner (some v.lift) site s = .ok (some d)) ∧
    (∃ owner site, convertUnder r .toWire owner (some d) site s = .ok (some z)) ∧
    form.read d = .ok a

/-- What is made of a member for a property on the way to `z`, if it is there at all, stands under
the internal name. -/
def Stands (r : Registry) (members : Table Data) (p : Property Schema) (z : Option Data) : Prop :=
  ∃ (o : Option Json) (w : Option Data) (site site' : Site),
    convert r .toInternal (o.map Json.lift) site p.schema = .ok w ∧
    Table.find? members p.internalName = w ∧
    convert r .toWire w site' p.schema = .ok z

/-- The members of some JSON object are converted to ones that are taken back to these results and
read as `x`. -/
def PassesAll (r : Registry) {ρ : Type} (fields : Fields ρ) (properties : List (Property Schema))
    (results : List (Option Data)) (x : ρ) : Prop :=
  ∃ members : Table Data, List.Forall₂ (Stands r members) properties results ∧
    fields.readMembers members = .ok x

theorem Passes.of_reference (hr : r.Acyclic) {α : Type} {form : Form α} {name : String} {s : Schema}
    {z : Data} {a : α} (h : Passes r form (.reference name) z a) (hname : r.find? name = some s) :
    Passes r form s z a := by
  obtain ⟨v, d, ⟨owner, site, hcast⟩, ⟨owner', site', hback⟩, hread⟩ := h
  rw [convertUnder_reference hr hname] at hcast hback
  exact ⟨v, d, ⟨_, site, hcast⟩, ⟨_, site', hback⟩, hread⟩

theorem Passes.of_kind {α : Type} {form : Form α} {k : Kind} {z : Data} {a : α}
    (hk : k ≠ .timestamp) (h : Passes r form (.kind k) z a) :
    ∃ v : Json, admits k (some v.lift) = true ∧ z = v.lift ∧ form.read v.lift = .ok a := by
  obtain ⟨v, d, ⟨owner, site, hcast⟩, ⟨owner', site', hback⟩, hread⟩ := h
  obtain ⟨hadmits, hd⟩ := (convertUnder_kind_eq_ok_iff hk).1 hcast
  obtain rfl := Option.some.inj hd
  obtain ⟨-, hz⟩ := (convertUnder_kind_eq_ok_iff hk).1 hback
  exact ⟨v, hadmits, Option.some.inj hz, hread⟩

theorem Passes.of_literals {α : Type} {form : Form α} {words : List String}
    {distinct : words.Nodup} {z : Data} {a : α} (h : Passes r form (.literals words distinct) z a) :
    ∃ word ∈ words, z = .string word ∧ form.read (.string word) = .ok a := by
  obtain ⟨v, d, ⟨owner, site, hcast⟩, ⟨owner', site', hback⟩, hread⟩ := h
  obtain ⟨word, hword, hv, hd⟩ := convertUnder_literals_eq_ok_iff.1 hcast
  obtain ⟨_, -, -, hz⟩ := convertUnder_literals_eq_ok_iff.1 hback
  -- a word is kept both times
  rw [hv] at hd
  obtain rfl := Option.some.inj hd
  exact ⟨word, hword, Option.some.inj hz, hread⟩

/-- Elements pass one by one. -/
theorem Passes.list (hr : r.Acyclic) {α : Type} {item : Form α} {element : Schema} {z : Data}
    {xs : List α} (h : Passes r (.list item) (.array element) z xs) :
    ∃ zs, z = .array zs ∧ List.Forall₂ (Passes r item element) zs xs := by
  obtain ⟨v, d, ⟨owner, site, hcast⟩, ⟨owner', site', hback⟩, hread⟩ := h
  obtain ⟨_, ds, hitems, hds, hcasts⟩ := (convertUnder_array_eq_ok_iff_forall₂ hr).1 hcast
  obtain ⟨_, zs, hds', hzs, hbacks⟩ := (convertUnder_array_eq_ok_iff_forall₂ hr).1 hback
  obtain ⟨vs, rfl, rfl⟩ := Json.exists_of_lift_eq_array (Option.some.inj hitems)
  obtain rfl := Option.some.inj hds
  obtain rfl := Value.array.inj (Option.some.inj hds')
  obtain rfl := Option.some.inj hzs
  rw [List.forall₂_map_left_iff] at hcasts
  rw [Form.read] at hread
  -- an element comes from some element of the array, is read, and is taken back
  have hreads : List.Forall₂ (fun d a =>
      (∃ v : Json, convert r .toInternal (some v.lift) site element = .ok (some d)) ∧
        item.read d = .ok a) ds xs := by
    refine forall₂_imp_of_mem (readItems_eq_ok_iff.1 hread) fun d hd a ha => ⟨?_, ha⟩
    obtain ⟨v, -, hv⟩ := exists_mem_of_forall₂ hcasts hd
    exact ⟨v, hv⟩
  refine ⟨zs, rfl, (forall₂_trans hbacks.flip hreads).imp fun z a hza => ?_⟩
  obtain ⟨d, hz, ⟨v, hv⟩, ha⟩ := hza
  rw [convert_eq_convertUnder] at hv hz
  exact ⟨v, d, ⟨_, _, hv⟩, ⟨_, _, hz⟩, ha⟩

/-- A record passes field by field. -/
theorem Passes.record {α ρ : Type} {name : String} {fields : Fields ρ} {make : ρ → α}
    {split : α → ρ} {properties : List (Property Schema)} {z : Data} {a : α}
    (hwire : (properties.map Property.wireName).Nodup)
    (hinternal : (properties.map Property.internalName).Nodup)
    (h : Passes r (.record name fields make split) (.object properties none) z a) :
    ∃ results x, z = .object (present ((properties.map Property.wireName).zip results)) ∧
      a = make x ∧ PassesAll r fields properties results x := by
  obtain ⟨v, d, ⟨owner, site, hcast⟩, ⟨owner', site', hback⟩, hread⟩ := h
  have hin := nodup_names hwire hinternal .toInternal
  have hout := nodup_names hwire hinternal .toWire
  obtain ⟨_, ds, hmembers, hcasts, -, hd⟩ := (convertUnder_strict_eq_ok_iff hin.1 hin.2).1 hcast
  obtain ⟨members, results, hmembers', hbacks, -, hz⟩ :=
    (convertUnder_strict_eq_ok_iff hout.1 hout.2).1 hback
  obtain ⟨ms, rfl, rfl⟩ := Json.exists_of_lift_eq_object (Option.some.inj hmembers)
  obtain rfl := Option.some.inj hmembers'
  obtain rfl := Option.some.inj hz
  obtain rfl := Value.object.inj (Option.some.inj hd)
  rw [Form.read, Result.map_eq_ok_iff] at hread
  obtain ⟨x, hx, rfl⟩ := hread
  refine ⟨results, x, rfl, rfl, _, forall₂_imp_of_mem hbacks fun p hp z hz => ?_,
    Result.mapError_eq_ok_iff.1 hx⟩
  -- what was made of a property stands under its internal name
  rw [← List.map_fst_zip hcasts.length_eq.le] at hp
  obtain ⟨⟨p, w⟩, hw, rfl⟩ := List.mem_map.1 hp
  have hfind : Table.find? _ p.internalName = w := find?_present_zip hin.2 hcasts.length_eq hw
  have hcast := (List.forall₂_iff_zip.1 hcasts).2 hw
  rw [convertProperty, Table.find?_map] at hcast
  rw [convertProperty] at hz
  exact ⟨_, w, _, _, hcast, hfind, by rwa [← hfind]⟩

/-! ## Fields -/

/-- The canonical text of an instant, cut to the millisecond. -/
def canonicalText (t : Instant) : Data := .string (Data.spell t.truncate)

theorem replaces_atom (ts : List Instant) : Replaces .toWire .atom canonicalText ts :=
  fun t _ => ⟨t.truncate, rfl, rfl⟩

theorem both_eq_ok_iff {β γ : Type} {x : Form.Placed β} {y : Form.Placed γ} {b : β} {c : γ} :
    Form.both x y = .ok (b, c) ↔ x = .ok b ∧ y = .ok c := by
  cases x <;> cases y <;> simp [Form.both]

/-- An instant that the engine has cut is in whole milliseconds if it lies in a plain year. -/
theorem map_wholeMillis_of_truncated {t : Option Instant} (h : ∀ u ∈ t, u.truncate = u)
    (hplain : ∀ u ∈ t.map Instant.wholeMillis, u.IsPlain) : t.map Instant.wholeMillis = t := by
  cases t with
  | none => rfl
  | some t =>
      have ht : t.IsPlain := by
        have hmillis : t.wholeMillis.IsPlain := hplain _ rfl
        rwa [Instant.IsPlain, Instant.year_eq_of_second (u := t.wholeMillis) (t := t) rfl]
          at hmillis
      rw [Option.map_some, ← Instant.truncate_of_isPlain ht, h t rfl]

/-- An instant or null passes: it is read as none where null is kept, and otherwise its text is
written. -/
theorem eq_elim_of_timestamp {j : Json} {members : Table Data} {key : String} {site' : Site}
    {w z : Option Data} {t : Option Instant} {absent : Except Mismatch (Option Instant)}
    (hcast : convert r .toInternal (some j.lift) site (.kind .timestamp) = .ok w)
    (hback : convert r .toWire w site' (.kind .timestamp) = .ok z)
    (hw : Table.find? members key = w)
    (hread : Form.placed members key (Form.orNull Form.instant.read) absent = .ok t)
    (hplain : ∀ u ∈ t, u.IsPlain) : z = some (t.elim .null canonicalText) := by
  obtain ⟨_, u, ⟨⟩, rfl, htruncated, -⟩ := exists_instant_of_convert (o := some j) hcast
  rw [placed_eq_ok_iff hw, orNull_elim (readsInstants_atom _)] at hread
  obtain rfl := Except.ok.inj hread
  rw [convert_timestamp_elim (replaces_atom _)] at hback
  rw [map_wholeMillis_of_truncated htruncated hplain]
  exact (Except.ok.inj hback).symm

section

variable {α ρ : Type} {rest : Fields ρ} {properties : List (Property Schema)} {p : Property Schema}
  {results : List (Option Data)} {x : ρ}

/-- The value of a required field passes. -/
theorem PassesAll.required (hr : r.Acyclic) {form : Form α} (fit : Fit r form p.schema) {a : α}
    (h : PassesAll r (.required p.internalName form rest) (p :: properties) results (a, x)) :
    ∃ z others, results = some z :: others ∧ Passes r form p.schema z a ∧
      PassesAll r rest properties others x := by
  obtain ⟨members, hmade, hread⟩ := h
  obtain ⟨ha, hx⟩ := both_eq_ok_iff.1 hread
  obtain ⟨z, others, ⟨o, w, site, site', hcast, hw, hback⟩, hothers, rfl⟩ :=
    List.forall₂_cons_left_iff.1 hmade
  rw [convert_eq_convertUnder] at hcast hback
  cases o with
  | none => exact absurd hcast (fit.not_absent hr none)
  | some j =>
      obtain ⟨w, rfl⟩ := exists_some_of_eq_ok hr hcast
      obtain ⟨z, rfl⟩ := exists_some_of_eq_ok hr hback
      rw [placed_eq_ok_iff hw] at ha
      exact ⟨z, others, rfl, ⟨j, w, ⟨_, _, hcast⟩, ⟨_, _, hback⟩, ha⟩, members, hothers, hx⟩

/-- A nullable instant is null or its text. -/
theorem PassesAll.nullable (hp : p.schema = .kind .timestamp) {t : Option Instant}
    (h : PassesAll r (.nullable p.internalName .instant rest) (p :: properties) results (t, x))
    (hplain : ∀ u ∈ t, u.IsPlain) :
    ∃ others, results = some (t.elim .null canonicalText) :: others ∧
      PassesAll r rest properties others x := by
  obtain ⟨members, hmade, hread⟩ := h
  obtain ⟨ht, hx⟩ := both_eq_ok_iff.1 hread
  obtain ⟨z, others, ⟨o, w, site, site', hcast, hw, hback⟩, hothers, rfl⟩ :=
    List.forall₂_cons_left_iff.1 hmade
  rw [hp] at hcast hback
  obtain ⟨j, -, rfl, -⟩ := exists_instant_of_convert hcast
  obtain rfl := eq_elim_of_timestamp hcast hback hw ht hplain
  exact ⟨others, rfl, members, hothers, hx⟩

/-- One that may be left out is its text, or nothing, or a null that was kept. -/
theorem PassesAll.omittable (hr : r.Acyclic) (hp : p.schema = .optional (.kind .timestamp))
    {t : Option Instant}
    (h : PassesAll r (.omittable p.internalName .instant rest) (p :: properties) results (t, x))
    (hplain : ∀ u ∈ t, u.IsPlain) :
    ∃ z others, results = z :: others ∧
      (z = t.map canonicalText ∨ t = none ∧ z = some .null) ∧
        PassesAll r rest properties others x := by
  obtain ⟨members, hmade, hread⟩ := h
  obtain ⟨ht, hx⟩ := both_eq_ok_iff.1 hread
  obtain ⟨z, others, ⟨o, w, site, site', hcast, hw, hback⟩, hothers, rfl⟩ :=
    List.forall₂_cons_left_iff.1 hmade
  refine ⟨z, others, rfl, ?_, members, hothers, hx⟩
  rw [hp] at hcast hback
  cases o with
  -- a missing member stays missing, and is read as none
  | none =>
      rw [Option.map_none, convert_optional_none] at hcast
      obtain rfl := Except.ok.inj hcast
      rw [convert_optional_none] at hback
      obtain rfl := Except.ok.inj hback
      rw [placed_of_none hw] at ht
      obtain rfl := Except.ok.inj ht
      exact .inl rfl
  | some j =>
      rw [Option.map_some, convert_optional_some_iff] at hcast
      obtain ⟨w, rfl⟩ := exists_some_of_eq_ok hr (convert_eq_convertUnder _ _ _ ▸ hcast)
      rw [convert_optional_some_iff] at hback
      obtain rfl := eq_elim_of_timestamp hcast hback hw ht hplain
      cases t with
      | none => exact .inr ⟨rfl, rfl⟩
      | some t => exact .inl rfl

end

/-! ## The two ways agree

One recursion over the agreement, with a second statement for the fields of a record beside it. The
fields may leave out nulls under some names. A value in which nothing can be left out has records
without such names, so for these the second statement gives the whole rendering. -/

mutual

/-- Where nothing can be left out, what is taken back to the wire is the rendering of what is
read. -/
theorem Passes.eq_render (hr : r.Acyclic) {α : Type} {form : Form α} {s : Schema}
    (fit : Fit r form s) (hcomplete : fit.complete = true) {z : Data} {a : α}
    (h : Passes r form s z a) (hplain : ∀ t ∈ form.instants a, t.IsPlain) :
    z = fit.render Property.wireName canonicalText a :=
  match fit, a with
  | .text, _ => by
      obtain ⟨v, hadmits, rfl, hread⟩ := h.of_kind (by decide)
      cases v with
      | string t => exact congrArg Value.string (Except.ok.inj hread)
      | atom t => exact t.elim
      | _ => cases hadmits
  | .flag, _ => by
      obtain ⟨v, hadmits, rfl, hread⟩ := h.of_kind (by decide)
      cases v with
      | bool b => exact congrArg Value.bool (Except.ok.inj hread)
      | atom t => exact t.elim
      | _ => cases hadmits
  | .number, _ => by
      obtain ⟨v, hadmits, rfl, hread⟩ := h.of_kind (by decide)
      cases v with
      | number n => exact congrArg Value.number (Except.ok.inj hread)
      | atom t => exact t.elim
      | _ => cases hadmits
  | .anything, vs => by
      obtain ⟨zs, rfl, hzs⟩ := h.list hr
      rw [Fit.render]
      -- any value goes both ways as it is
      refine congrArg Value.array (eq_map_of_forall₂ (hzs.imp fun z v hzv => ?_))
      obtain ⟨u, -, rfl, hread⟩ := hzv.of_kind (by decide)
      have hv : u.lift.toJson = v := Except.ok.inj hread
      rw [← hv, Json.toJson_lift]
  | .list fit, xs => by
      obtain ⟨zs, rfl, hzs⟩ := h.list hr
      rw [Fit.render]
      refine congrArg Value.array (eq_map_of_forall₂ (forall₂_imp_of_mem hzs.flip ?_).flip)
      intro x hx z hzx
      exact Passes.eq_render hr fit hcomplete hzx fun t ht =>
        hplain t (List.mem_flatMap.2 ⟨x, hx, ht⟩)
  | .word spell hspell hwords, a => by
      obtain ⟨word, hword, rfl, hread⟩ := h.of_literals
      obtain ⟨b, rfl⟩ := hwords word hword
      rw [Form.read] at hread
      simp only [(hspell b).2, Except.ok.injEq] at hread
      rw [← hread, Fit.render]
  | .reference hname fit, a =>
      Passes.eq_render hr fit hcomplete (h.of_reference hr hname) hplain
  | .record make split hmake hsplit hwire hinternal fit, a => by
      obtain ⟨results, x, rfl, rfl, hx⟩ := h.record hwire hinternal
      rw [Form.instants, hsplit] at hplain
      have hmembers := hx.keptMembers_eq hr fit hcomplete hplain
      rw [Value.keptMembers_nil] at hmembers
      rw [Fit.render, hsplit, hmembers]

/-- And in a record, it is the rendering up to the nulls that could have been left out. -/
theorem PassesAll.keptMembers_eq (hr : r.Acyclic) {ρ : Type} {fields : Fields ρ}
    {properties : List (Property Schema)} (fit : FieldsFit r properties fields)
    {names : List String} (homits : fit.omits names = true) {results : List (Option Data)} {x : ρ}
    (h : PassesAll r fields properties results x) (hplain : ∀ t ∈ fields.instants x, t.IsPlain) :
    Value.keptMembers names (present ((properties.map Property.wireName).zip results)) =
      present ((fit.rows Property.wireName canonicalText x).map fun w => (w.1.wireName, w.2)) :=
  match fit, x with
  | .nil, _ => rfl
  | .required p fit others, (a, x) => by
      obtain ⟨z, zs, rfl, hz, hzs⟩ := h.required hr fit
      simp only [FieldsFit.omits, Bool.and_eq_true, Bool.not_eq_true', decide_eq_false_iff_not]
        at homits
      obtain ⟨⟨hp, hcomplete⟩, homits⟩ := homits
      have ha := hz.eq_render hr fit hcomplete fun t ht => hplain t (List.mem_append_left _ ht)
      have hx := hzs.keptMembers_eq hr others homits fun t ht =>
        hplain t (List.mem_append_right _ ht)
      rw [List.map_cons, List.zip_cons_cons, present_cons_some,
        Value.keptMembers_cons_of_notMem hp, hx, FieldsFit.rows, List.map_cons, present_cons_some,
        ha]
  | .nullable p hp others, (t, x) => by
      have ht : ∀ u ∈ t, u.IsPlain := fun u hu =>
        hplain u (mem_instants_append (Option.mem_toList.2 hu))
      obtain ⟨zs, rfl, hzs⟩ := h.nullable hp ht
      simp only [FieldsFit.omits, Bool.and_eq_true, Bool.not_eq_true', decide_eq_false_iff_not]
        at homits
      have hx := hzs.keptMembers_eq hr others homits.2 fun t ht =>
        hplain t (List.mem_append_right _ ht)
      rw [List.map_cons, List.zip_cons_cons, present_cons_some,
        Value.keptMembers_cons_of_notMem homits.1, hx, FieldsFit.rows, List.map_cons,
        present_cons_some]
  | .omittable p hp others, (t, x) => by
      have ht : ∀ u ∈ t, u.IsPlain := fun u hu =>
        hplain u (mem_instants_append (Option.mem_toList.2 hu))
      obtain ⟨z, zs, rfl, hz, hzs⟩ := h.omittable hr hp ht
      simp only [FieldsFit.omits, Bool.and_eq_true, decide_eq_true_eq] at homits
      have hx := hzs.keptMembers_eq hr others homits.2 fun t ht =>
        hplain t (List.mem_append_right _ ht)
      rw [List.map_cons, List.zip_cons_cons, FieldsFit.rows, List.map_cons]
      rcases hz with rfl | ⟨rfl, rfl⟩
      · cases t with
        | none => rw [Option.map_none, present_cons_none, present_cons_none, hx]
        | some t =>
            rw [Option.map_some, present_cons_some, present_cons_some, canonicalText,
              Value.keptMembers_cons_string]
            exact congrArg _ hx
      -- the null that was kept is dropped, and of the instant that is missing nothing is written
      · rw [present_cons_some, Value.keptMembers_cons_null homits.1, hx, Option.map_none,
          present_cons_none]

end

/-- Without the nulls that could have been left out, the record is the rendering. -/
theorem Passes.withoutNulls_eq_render (hr : r.Acyclic) {α : Type} {form : Form α} {s : Schema}
    (fit : Fit r form s) {names : List String} (homits : fit.omits names = true) {z : Data} {a : α}
    (h : Passes r form s z a) (hplain : ∀ t ∈ form.instants a, t.IsPlain) :
    z.withoutNulls names = fit.render Property.wireName canonicalText a :=
  match fit, a with
  | .text, _ | .flag, _ | .number, _ | .anything, _ | .list _, _ | .word _ _ _, _ => by
      cases homits
  | .reference hname fit, a =>
      Passes.withoutNulls_eq_render hr fit homits (h.of_reference hr hname) hplain
  | .record make split hmake hsplit hwire hinternal fit, a => by
      obtain ⟨results, x, rfl, rfl, hx⟩ := h.record hwire hinternal
      rw [Form.instants, hsplit] at hplain
      rw [Value.withoutNulls, hx.keptMembers_eq hr fit homits hplain, Fit.render, hsplit]

end Agenda
