/-
What the engine accepts, the forms read.

A schema and the form that fits it accept the same values: whatever the engine makes of a JSON value
on the way to internal names, the form reads, and the typed value that comes out is made of parts of
the JSON value. The other way round the engine is stricter than the form, for one reason only: a
typed value may hold an instant whose written text no document may have. So a written value is taken
back to the wire only if each of its instants is in a place where the engine finds it.
-/
import Agenda.Proofs.Document.Rendering

set_option autoImplicit false

namespace Agenda

open Engine

variable {r : Registry} {owner : Option String} {site : Site} {out : Option Data}

/-! ## Absence -/

/-- A form that fits a schema describes no absent value. -/
theorem Fit.not_absent (hr : r.Acyclic) {d : Direction} {α : Type} {form : Form α} {s : Schema}
    (fit : Fit r form s) (owner : Option String) :
    convertUnder r d owner none site s ≠ .ok out := by
  intro h
  match fit with
  | .text => cases ((convertUnder_kind_eq_ok_iff (by decide)).1 h).1
  | .flag => cases ((convertUnder_kind_eq_ok_iff (by decide)).1 h).1
  | .number => cases ((convertUnder_kind_eq_ok_iff (by decide)).1 h).1
  | .anything =>
      obtain ⟨_, _, hx, _⟩ := convertUnder_array_eq_ok_iff.1 h
      cases hx
  | .list _ =>
      obtain ⟨_, _, hx, _⟩ := convertUnder_array_eq_ok_iff.1 h
      cases hx
  | .word _ _ _ =>
      obtain ⟨_, _, hx, _⟩ := convertUnder_literals_eq_ok_iff.1 h
      cases hx
  | .reference hname fit =>
      rw [convertUnder_reference hr hname] at h
      exact fit.not_absent hr _ h
  | .record _ _ _ _ _ _ _ =>
      obtain ⟨_, _, hx, _⟩ := exists_object_of_eq_ok h
      cases hx

/-! ## Reading what was accepted -/

/-- The engine made `w` of `v`, and the form reads it: the typed value has whole milliseconds, its
instants are cut to them as the engine does, and it is made of parts of `v`. -/
structure Fit.Reads {α : Type} {form : Form α} {s : Schema} (fit : Fit r form s) (v w : Data)
    (a : α) : Prop where
  read : form.read w = .ok (form.change Instant.wholeMillis id a)
  truncated : ∀ t ∈ form.instants a, t.truncate = t
  descends (R : Data → Data → Prop) (hR : Descends R) :
    R v (fit.render Property.internalName .atom a)

/-- The same for the fields of a record, whose members are found by their internal names, and for
the members of a JSON object. -/
structure FieldsFit.Reads {ρ : Type} {fields : Fields ρ} {properties : List (Property Schema)}
    (fit : FieldsFit r properties fields) (ms : Table Json) (results : List (Option Data)) (x : ρ) :
    Prop where
  read (members : Table Data)
    (hmembers : ∀ w ∈ properties.zip results, Table.find? members w.1.internalName = w.2) :
    fields.readMembers members = .ok (fields.change Instant.wholeMillis id x)
  truncated : ∀ t ∈ fields.instants x, t.truncate = t
  descends (R : Data → Data → Prop) (hR : Descends R) (w : Property Schema × Option Data)
    (hw : w ∈ fit.rows Property.internalName .atom x) (u : Data) (hu : w.2 = some u) :
    ∃ m ∈ ms, R m.2.lift u

theorem read_atom (t : Instant) : Form.instant.read (.atom t) = .ok t.wholeMillis := by
  rw [Form.read]
  simp only [Form.textOf?, Instant.ofText_spell, Result.mapError_ok]

theorem readsInstants_atom (ts : List Instant) :
    ReadsInstants .atom Instant.wholeMillis ts := fun t _ => ⟨read_atom t, by simp⟩

/-- At a timestamp the engine makes null or an instant, which descends from the JSON value. -/
theorem exists_instant_of_convert {o : Option Json} {v : Option Data}
    (h : convert r .toInternal (o.map Json.lift) site (.kind .timestamp) = .ok v) :
    ∃ (j : Json) (t : Option Instant), o = some j ∧ v = some (t.elim .null .atom) ∧
      (∀ u ∈ t, u.truncate = u) ∧ ∀ R, Descends R → R j.lift (t.elim .null .atom) := by
  rw [convert_eq_convertUnder, convertUnder_timestamp_eq_ok_iff] at h
  rcases h with ⟨hnull, rfl⟩ | ⟨t, ht, rfl⟩
  · obtain ⟨j, rfl, hj⟩ := Option.map_eq_some_iff.1 hnull
    refine ⟨j, none, rfl, rfl, by simp, fun R hR => ?_⟩
    rw [hj]
    exact hR.same _
  · cases o with
    | none => cases ht
    | some j =>
        refine ⟨j, some t, rfl, rfl, ?_, fun R hR => hR.text (shape_of_instantOf? ht) rfl⟩
        rintro u ⟨⟩
        exact truncate_of_instantOf? ht

/-- Elements that are read one by one are read as a list. -/
theorem exists_list_reads {α : Type} {form : Form α} {s : Schema} (fit : Fit r form s)
    {vs ws : List Data} (h : List.Forall₂ (fun v w => ∃ a, fit.Reads v w a) vs ws) :
    ∃ xs : List α,
      (∀ i, Form.readItems form.read i ws = .ok (xs.map (form.change Instant.wholeMillis id))) ∧
      (∀ t ∈ xs.flatMap form.instants, t.truncate = t) ∧
      ∀ R, Descends R → List.Forall₂ R vs (xs.map (fit.render Property.internalName .atom)) := by
  induction h with
  | nil => exact ⟨[], fun _ => rfl, by simp, fun _ _ => .nil⟩
  | cons hvw _ ih =>
      obtain ⟨a, hread, htruncated, hdescends⟩ := hvw
      obtain ⟨xs, hreads, hall, hlist⟩ := ih
      refine ⟨a :: xs, fun i => ?_, fun t ht => ?_, fun R hR => .cons (hdescends R hR) (hlist R hR)⟩
      · rw [Form.readItems, hread, Form.under, Result.mapError_ok, Result.ok_bind, hreads,
          Result.ok_bind, List.map_cons]
      · rw [List.flatMap_cons, List.mem_append] at ht
        rcases ht with ht | ht
        · exact htruncated t ht
        · exact hall t ht

/-- A record is read as soon as its fields are. -/
theorem FieldsFit.Reads.record {α ρ : Type} {name : String} {fields : Fields ρ} {make : ρ → α}
    {split : α → ρ} {properties : List (Property Schema)} {hmake : ∀ a, make (split a) = a}
    {hsplit : ∀ p, split (make p) = p} {hwire : (properties.map Property.wireName).Nodup}
    {hinternal : (properties.map Property.internalName).Nodup}
    {fit : FieldsFit r properties fields} {ms : Table Json} {results : List (Option Data)} {x : ρ}
    (h : fit.Reads ms results x) (hlength : properties.length = results.length) :
    (Fit.record make split hmake hsplit hwire hinternal fit :
      Fit r (.record name fields make split) _).Reads (Json.lift (.object ms))
        (.object (present ((properties.map Property.internalName).zip results))) (make x) where
  read := by
    have hmembers : ∀ w ∈ properties.zip results,
        Table.find? (present ((properties.map Property.internalName).zip results))
          w.1.internalName = w.2 := fun w hw => find?_present_zip hinternal hlength hw
    rw [Form.read, h.read _ hmembers, Form.change, hsplit]
    rfl
  truncated := by
    rw [Form.instants, hsplit]
    exact h.truncated
  descends R hR := by
    rw [Json.lift_object, Fit.render, hsplit]
    refine hR.object ?_ fun n hn => ?_
    · exact (keys_present_sublist _).nodup (fit.nodup_keys hwire hinternal .toWire .atom x)
    -- a member of the rendering is a row that is present, and rows descend from members
    · obtain ⟨w, hw, heq⟩ := List.mem_map.1 (mem_present hn)
      obtain ⟨m, hm, hmn⟩ := h.descends R hR w hw n.2 (congrArg Prod.snd heq)
      exact ⟨(m.1, m.2.lift), List.mem_map.2 ⟨m, hm, rfl⟩, hmn⟩

section

variable {ρ : Type} {rest : Fields ρ} {properties : List (Property Schema)} {p : Property Schema}
  {others : FieldsFit r properties rest} {ms : Table Json} {results : List (Option Data)} {x : ρ}
  {j : Json}

/-- A required field is read as soon as its value is. -/
theorem FieldsFit.Reads.required {α : Type} {form : Form α} {fit : Fit r form p.schema} {w : Data}
    {a : α} (h : others.Reads ms results x) (hj : (p.wireName, j) ∈ ms)
    (ha : fit.Reads j.lift w a) :
    (FieldsFit.required p fit others).Reads ms (some w :: results) (a, x) where
  read members hmembers := by
    have hw := hmembers _ List.mem_cons_self
    rw [Fields.readMembers, placed_of_some hw ha.read,
      h.read members fun w hw => hmembers w (List.mem_cons_of_mem _ hw)]
    rfl
  truncated t ht := by
    rcases List.mem_append.1 ht with ht | ht
    · exact ha.truncated t ht
    · exact h.truncated t ht
  descends R hR w' hw u hu := by
    rcases List.mem_cons.1 hw with rfl | hw
    · obtain rfl := Option.some.inj hu
      exact ⟨_, hj, ha.descends R hR⟩
    · exact h.descends R hR w' hw u hu

variable {t : Option Instant} (ht : ∀ u ∈ t, u.truncate = u)
  (hdescends : ∀ R, Descends R → R j.lift (t.elim .null .atom))

include ht hdescends

/-- A nullable instant is read as it was made. -/
theorem FieldsFit.Reads.nullable {hp : p.schema = .kind .timestamp} (h : others.Reads ms results x)
    (hj : (p.wireName, j) ∈ ms) :
    (FieldsFit.nullable p hp others).Reads ms (some (t.elim .null .atom) :: results) (t, x) where
  read members hmembers := by
    have hw := hmembers _ List.mem_cons_self
    rw [Fields.readMembers, placed_of_some hw (orNull_elim (readsInstants_atom t.toList)),
      h.read members fun w hw => hmembers w (List.mem_cons_of_mem _ hw)]
    rfl
  truncated u hu := by
    rw [Fields.instants, flatMap_instants, List.mem_append, Option.mem_toList] at hu
    rcases hu with hu | hu
    · exact ht u hu
    · exact h.truncated u hu
  descends R hR w' hw u hu := by
    rcases List.mem_cons.1 hw with rfl | hw
    · obtain rfl := Option.some.inj hu
      exact ⟨_, hj, hdescends R hR⟩
    · exact h.descends R hR w' hw u hu

/-- So is one that may be missing. Where the engine keeps null, nothing is rendered. -/
theorem FieldsFit.Reads.omittable {hp : p.schema = .optional (.kind .timestamp)}
    (h : others.Reads ms results x) (hj : (p.wireName, j) ∈ ms) :
    (FieldsFit.omittable p hp others).Reads ms (some (t.elim .null .atom) :: results) (t, x) where
  read members hmembers := by
    have hw := hmembers _ List.mem_cons_self
    rw [Fields.readMembers, placed_of_some hw (orNull_elim (readsInstants_atom t.toList)),
      h.read members fun w hw => hmembers w (List.mem_cons_of_mem _ hw)]
    rfl
  truncated u hu := by
    rw [Fields.instants, flatMap_instants, List.mem_append, Option.mem_toList] at hu
    rcases hu with hu | hu
    · exact ht u hu
    · exact h.truncated u hu
  descends R hR w' hw u hu := by
    rcases List.mem_cons.1 hw with rfl | hw
    · cases t with
      | none => cases hu
      | some t =>
          obtain rfl := Option.some.inj hu
          exact ⟨_, hj, hdescends R hR⟩
    · exact h.descends R hR w' hw u hu

omit ht hdescends

/-- A missing instant is read as none. -/
theorem FieldsFit.Reads.omitted {hp : p.schema = .optional (.kind .timestamp)}
    (h : others.Reads ms results x) :
    (FieldsFit.omittable p hp others).Reads ms (none :: results) (none, x) where
  read members hmembers := by
    have hw := hmembers _ List.mem_cons_self
    rw [Fields.readMembers, placed_of_none hw,
      h.read members fun w hw => hmembers w (List.mem_cons_of_mem _ hw)]
    rfl
  truncated u hu := h.truncated u hu
  descends R hR w' hw u hu := by
    rcases List.mem_cons.1 hw with rfl | hw
    · cases hu
    · exact h.descends R hR w' hw u hu

end

mutual

/-- What the engine makes of a JSON value, the form reads. -/
theorem Fit.exists_reads (hr : r.Acyclic) {α : Type} {form : Form α} {s : Schema}
    (fit : Fit r form s) (v : Json) {w : Data} (owner : Option String) (site : Site)
    (h : convertUnder r .toInternal owner (some v.lift) site s = .ok (some w)) :
    ∃ a, fit.Reads v.lift w a :=
  match fit with
  | .text => by
      obtain ⟨hadmits, hw⟩ := (convertUnder_kind_eq_ok_iff (by decide)).1 h
      obtain rfl := Option.some.inj hw
      cases v with
      | string t => exact ⟨t, rfl, by simp [Form.instants], fun R hR => hR.same _⟩
      | atom t => exact t.elim
      | _ => cases hadmits
  | .flag => by
      obtain ⟨hadmits, hw⟩ := (convertUnder_kind_eq_ok_iff (by decide)).1 h
      obtain rfl := Option.some.inj hw
      cases v with
      | bool b => exact ⟨b, rfl, by simp [Form.instants], fun R hR => hR.same _⟩
      | atom t => exact t.elim
      | _ => cases hadmits
  | .number => by
      obtain ⟨hadmits, hw⟩ := (convertUnder_kind_eq_ok_iff (by decide)).1 h
      obtain rfl := Option.some.inj hw
      cases v with
      | number n => exact ⟨n, rfl, by simp [Form.instants], fun R hR => hR.same _⟩
      | atom t => exact t.elim
      | _ => cases hadmits
  | .anything => by
      obtain ⟨items, outs, hitems, hw, hall⟩ := (convertUnder_array_eq_ok_iff_forall₂ hr).1 h
      obtain ⟨vs, rfl, rfl⟩ := Json.exists_of_lift_eq_array (Option.some.inj hitems)
      obtain rfl := Option.some.inj hw
      -- any element is allowed, and kept as it is
      have hsame : List.Forall₂ (· = ·) (vs.map Json.lift) outs := by
        refine hall.imp fun v w hvw => ?_
        rw [convert_eq_convertUnder] at hvw
        exact (Option.some.inj ((convertUnder_kind_eq_ok_iff (by decide)).1 hvw).2).symm
      rw [List.forall₂_eq_eq_eq] at hsame
      subst hsame
      have hnone : ∀ t, t ∉ (Form.list .json).instants vs := by
        rw [instants_anything]
        exact fun t => List.not_mem_nil
      refine ⟨vs, ?_, fun t ht => absurd ht (hnone t), fun R hR => ?_⟩
      · have hreads : ReadsInstants .atom Instant.wholeMillis ((Form.list .json).instants vs) :=
          fun t ht => absurd ht (hnone t)
        exact (Fit.anything : Fit r _ _).read_render vs hreads
      · rw [Json.lift_array]
        exact hR.same _
  | .list fit => by
      obtain ⟨items, outs, hitems, hw, hall⟩ := (convertUnder_array_eq_ok_iff_forall₂ hr).1 h
      obtain ⟨vs, rfl, rfl⟩ := Json.exists_of_lift_eq_array (Option.some.inj hitems)
      obtain rfl := Option.some.inj hw
      have helement : List.Forall₂ (fun v w => ∃ a, fit.Reads v w a) (vs.map Json.lift) outs := by
        rw [List.forall₂_map_left_iff] at hall ⊢
        refine hall.imp fun v w hvw => ?_
        rw [convert_eq_convertUnder] at hvw
        exact fit.exists_reads hr v none site hvw
      obtain ⟨xs, hread, htruncated, hdescends⟩ := exists_list_reads fit helement
      refine ⟨xs, ?_, htruncated, fun R hR => ?_⟩
      · rw [Form.read, hread, Form.change]
      · rw [Json.lift_array, Fit.render]
        exact hR.array (hdescends R hR)
  | .word spell hspell hwords => by
      obtain ⟨word, hword, hx, hw⟩ := convertUnder_literals_eq_ok_iff.1 h
      obtain ⟨a, rfl⟩ := hwords word hword
      rw [hx] at hw
      obtain rfl := Option.some.inj hw
      rw [Option.some.inj hx]
      refine ⟨a, ?_, by simp [Form.instants], fun R hR => hR.same _⟩
      rw [Form.read, Form.change]
      simp only [(hspell a).2]
  | .reference hname fit => by
      rw [convertUnder_reference hr hname] at h
      obtain ⟨a, hread, htruncated, hdescends⟩ := fit.exists_reads hr v _ site h
      exact ⟨a, hread, htruncated, hdescends⟩
  | .record make split hmake hsplit hwire hinternal fit => by
      have hnames := nodup_names hwire hinternal .toInternal
      obtain ⟨members, results, hmembers, hresults, -, hw⟩ :=
        (convertUnder_strict_eq_ok_iff hnames.1 hnames.2).1 h
      obtain ⟨ms, rfl, rfl⟩ := Json.exists_of_lift_eq_object (Option.some.inj hmembers)
      obtain rfl := Option.some.inj hw
      obtain ⟨x, hx⟩ := fit.exists_reads hr ms owner hresults
      exact ⟨make x, hx.record hresults.length_eq⟩

/-- What the engine makes of the members of a JSON object, the fields read. -/
theorem FieldsFit.exists_reads (hr : r.Acyclic) {ρ : Type} {fields : Fields ρ}
    {properties : List (Property Schema)} (fit : FieldsFit r properties fields) (ms : Table Json)
    {results : List (Option Data)} (owner : Option String)
    (h : List.Forall₂ (fun p v => convertProperty r .toInternal owner
      (ms.map fun m => (m.1, m.2.lift)) p = .ok v) properties results) :
    ∃ x, fit.Reads ms results x :=
  match fit, h with
  | .nil, .nil => ⟨(), fun _ _ => rfl, fun _ ht => absurd ht List.not_mem_nil,
      fun _ _ _ hw => absurd hw List.not_mem_nil⟩
  | .required p fit others, .cons hv hrest => by
      obtain ⟨x, hx⟩ := others.exists_reads hr ms owner hrest
      rw [convertProperty, Table.find?_map, convert_eq_convertUnder] at hv
      cases ho : Table.find? ms (Direction.toInternal.sourceName p) with
      | none =>
          rw [ho] at hv
          -- where the member is missing the engine converts its absence, which the schema refuses
          exact absurd hv (fit.not_absent hr none)
      | some j =>
          rw [ho] at hv
          obtain ⟨w, rfl⟩ := exists_some_of_eq_ok hr hv
          obtain ⟨a, ha⟩ := fit.exists_reads hr j none _ hv
          exact ⟨(a, x), hx.required (Table.mem_of_find? ho) ha⟩
  | .nullable p hp others, .cons hv hrest => by
      obtain ⟨x, hx⟩ := others.exists_reads hr ms owner hrest
      rw [convertProperty, Table.find?_map, hp] at hv
      obtain ⟨j, t, hj, rfl, ht, hdescends⟩ := exists_instant_of_convert hv
      exact ⟨(t, x), hx.nullable ht hdescends (Table.mem_of_find? hj)⟩
  | .omittable p hp others, .cons hv hrest => by
      obtain ⟨x, hx⟩ := others.exists_reads hr ms owner hrest
      rw [convertProperty, Table.find?_map, hp] at hv
      cases ho : Table.find? ms (Direction.toInternal.sourceName p) with
      | none =>
          -- a missing member and one that is null are both read as none
          rw [ho, Option.map_none, convert_optional_none] at hv
          obtain rfl := Except.ok.inj hv
          exact ⟨(none, x), hx.omitted⟩
      | some j =>
          rw [ho, Option.map_some, convert_optional_some_iff] at hv
          obtain ⟨_, t, ⟨⟩, rfl, ht, hdescends⟩ := exists_instant_of_convert (o := some j) hv
          exact ⟨(t, x), hx.omittable ht hdescends (Table.mem_of_find? ho)⟩

end

/-! ## What is taken back to the wire -/

section

variable {d : Direction} {p : Instant → Data}

theorem exists_instant_of_convert_place {t : Instant} {out : Option Data} (hp : p t ≠ .null)
    (h : convert r d (some (p t)) site (.kind .timestamp) = .ok out) :
    ∃ u, instantOf? (some (p t)) = some u := by
  rw [convert_eq_convertUnder, convertUnder_timestamp_eq_ok_iff] at h
  rcases h with ⟨hnull, -⟩ | ⟨u, hu, -⟩
  · exact absurd (Option.some.inj hnull) hp
  · exact ⟨u, hu⟩

mutual

/-- A rendering is converted only if the engine finds an instant in the place of each one. -/
theorem Fit.exists_instant_of_convertUnder (hr : r.Acyclic) (hp : ∀ t, p t ≠ .null) {α : Type}
    {form : Form α} {s : Schema} (fit : Fit r form s) (a : α) (owner : Option String) (site : Site)
    {out : Option Data}
    (h : convertUnder r d owner (some (fit.render d.sourceName p a)) site s = .ok out) :
    ∀ t ∈ form.instants a, ∃ u, instantOf? (some (p t)) = some u :=
  match fit, a with
  | .text, _ => fun t ht => absurd ht List.not_mem_nil
  | .flag, _ => fun t ht => absurd ht List.not_mem_nil
  | .number, _ => fun t ht => absurd ht List.not_mem_nil
  | .anything, vs => by
      rw [instants_anything]
      exact fun t ht => absurd ht List.not_mem_nil
  | .list fit, xs => by
      intro t ht
      obtain ⟨x, hx, ht⟩ := List.mem_flatMap.1 ht
      obtain ⟨items, outs, hitems, -, hall⟩ := (convertUnder_array_eq_ok_iff_forall₂ hr).1 h
      obtain rfl := Value.array.inj (Option.some.inj hitems)
      rw [List.forall₂_map_left_iff] at hall
      obtain ⟨w, -, hw⟩ := exists_mem_of_forall₂ hall.flip hx
      rw [convert_eq_convertUnder] at hw
      exact fit.exists_instant_of_convertUnder hr hp x none site hw t ht
  | .word _ _ _, _ => fun t ht => absurd ht List.not_mem_nil
  | .reference hname fit, a => by
      rw [convertUnder_reference hr hname] at h
      exact fit.exists_instant_of_convertUnder hr hp a _ site h
  | .record _ split _ _ hwire hinternal fit, a => by
      have hnames := nodup_names hwire hinternal d
      obtain ⟨members, vs, hmembers, hvs, -, -⟩ :=
        (convertUnder_strict_eq_ok_iff hnames.1 hnames.2).1 h
      obtain rfl := Value.object.inj (Option.some.inj hmembers)
      -- the members have distinct names, so every row was converted under its own property
      refine fit.exists_instant_of_rows hr hp (split a) fun w hw => ?_
      have hproperty : w.1 ∈ (fit.rows d.sourceName p (split a)).map Prod.fst :=
        List.mem_map.2 ⟨w, hw, rfl⟩
      rw [fit.map_fst_rows] at hproperty
      obtain ⟨v, -, hv⟩ := exists_mem_of_forall₂ hvs.flip hproperty
      have hfind := find?_present (fit.nodup_keys hwire hinternal d p (split a))
        (List.mem_map.2 ⟨w, hw, rfl⟩)
      rw [convertProperty, hfind] at hv
      exact ⟨_, v, hv⟩

theorem FieldsFit.exists_instant_of_rows (hr : r.Acyclic) (hp : ∀ t, p t ≠ .null) {ρ : Type}
    {fields : Fields ρ} {properties : List (Property Schema)}
    (fit : FieldsFit r properties fields) (x : ρ)
    (h : ∀ w ∈ fit.rows d.sourceName p x, ∃ site v, convert r d w.2 site w.1.schema = .ok v) :
    ∀ t ∈ fields.instants x, ∃ u, instantOf? (some (p t)) = some u :=
  match fit, x with
  | .nil, _ => fun t ht => absurd ht List.not_mem_nil
  | .required prop fit others, (a, x) => by
      intro t ht
      have hothers := others.exists_instant_of_rows hr hp x fun w hw =>
        h w (List.mem_cons_of_mem _ hw)
      obtain ⟨site, v, hv⟩ := h _ List.mem_cons_self
      rw [convert_eq_convertUnder] at hv
      rcases List.mem_append.1 ht with ht | ht
      · exact fit.exists_instant_of_convertUnder hr hp a none site hv t ht
      · exact hothers t ht
  | .nullable prop hprop others, (u, x) => by
      intro t ht
      have hothers := others.exists_instant_of_rows hr hp x fun w hw =>
        h w (List.mem_cons_of_mem _ hw)
      obtain ⟨site, v, hv⟩ := h _ List.mem_cons_self
      rw [hprop] at hv
      rw [Fields.instants, flatMap_instants, List.mem_append, Option.mem_toList] at ht
      rcases ht with rfl | ht
      · exact exists_instant_of_convert_place (hp t) hv
      · exact hothers t ht
  | .omittable prop hprop others, (u, x) => by
      intro t ht
      have hothers := others.exists_instant_of_rows hr hp x fun w hw =>
        h w (List.mem_cons_of_mem _ hw)
      obtain ⟨site, v, hv⟩ := h _ List.mem_cons_self
      rw [hprop] at hv
      rw [Fields.instants, flatMap_instants, List.mem_append, Option.mem_toList] at ht
      rcases ht with rfl | ht
      · exact exists_instant_of_convert_place (hp t) (convert_optional_some_iff.1 hv)
      · exact hothers t ht

end

end

end Agenda
