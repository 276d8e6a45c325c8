/-
What a JSON value means under a form.

A form that fits a schema gives each JSON value that the schema accepts a meaning: texts, flags and
numbers mean themselves, a word means what it spells, an array means the list of what its elements
mean, and an object means a record whose fields stand under their wire names. An instant is what its
text is read as, in whole milliseconds. A typed value that was read means what the JSON value says,
so each part of a document can be looked up in the text, at its own place.
-/
import Agenda.Proofs.Conversion.Normalize
import Agenda.Proofs.Document.Passing
import Agenda.Proofs.Document.Reading

set_option autoImplicit false

namespace Agenda

open Engine

variable {r : Registry}

/-! ## The meaning of a value -/

/-- What stands for an instant, or for none. -/
inductive MeansInstant : Json → Option Instant → Prop where
  | null : MeansInstant .null none
  | text {s : String} {t : Instant} (h : Timestamp.read? s = some t) :
      MeansInstant (.string s) (some t.wholeMillis)

mutual

/-- A JSON value means a typed value. -/
def Fit.Means {α : Type} {form : Form α} {s : Schema} : Fit r form s → Json → α → Prop
  | .text, v, t => v = .string t
  | .flag, v, b => v = .bool b
  | .number, v, n => v = .number n
  | .anything, v, vs => v = .array vs
  | .list fit, v, xs => ∃ vs, v = .array vs ∧ List.Forall₂ fit.Means vs xs
  | .word spell _ _, v, a => v = .string (spell a)
  | .reference _ fit, v, a => fit.Means v a
  | .record _ split _ _ _ _ fit, v, a => ∃ ms, v = .object ms ∧ fit.Means ms (split a)

/-- The members of an object mean the fields of a record. -/
def FieldsFit.Means {ρ : Type} {fields : Fields ρ} {properties : List (Property Schema)} :
    FieldsFit r properties fields → Table Json → ρ → Prop
  | .nil, _, _ => True
  | .required p fit others, ms, (a, x) =>
    (∃ v, Table.find? ms p.wireName = some v ∧ fit.Means v a) ∧ others.Means ms x
  | .nullable p _ others, ms, (t, x) =>
    (∃ v, Table.find? ms p.wireName = some v ∧ MeansInstant v t) ∧ others.Means ms x
  | .omittable p _ others, ms, (t, x) =>
    (Table.find? ms p.wireName = none ∧ t = none ∨
      ∃ v, Table.find? ms p.wireName = some v ∧ MeansInstant v t) ∧ others.Means ms x

end

/-! ## What is read -/

/-- What is read of an instant or null is what the text means. -/
theorem meansInstant_of_read {site : Site} {j : Json} {w : Option Data} {members : Table Data}
    {key : String} {t : Option Instant} {absent : Except Mismatch (Option Instant)}
    (hcast : convert r .toInternal (some j.lift) site (.kind .timestamp) = .ok w)
    (hw : Table.find? members key = w)
    (hread : Form.placed members key (Form.orNull Form.instant.read) absent = .ok t) :
    MeansInstant j t := by
  rw [convert_eq_convertUnder, convertUnder_timestamp_eq_ok_iff] at hcast
  rcases hcast with ⟨hnull, rfl⟩ | ⟨u, hu, rfl⟩
  · rw [placed_eq_ok_iff hw] at hread
    obtain rfl := Except.ok.inj hread
    rw [Json.lift_injective (Option.some.inj hnull : j.lift = Json.lift .null)]
    exact .null
  · obtain ⟨text, rfl, htext⟩ := exists_string_of_instantOf? hu
    have hatom := orNull_elim (t := some u) (readsInstants_atom _)
    rw [placed_eq_ok_iff hw] at hread
    obtain rfl := Except.ok.inj (hatom.symm.trans hread)
    exact .text htext

mutual

/-- Whatever a form reads of what the engine makes of a JSON value, the JSON value means. -/
theorem Fit.means (hr : r.Acyclic) {α : Type} {form : Form α} {s : Schema} (fit : Fit r form s)
    (v : Json) {w : Data} {a : α} (owner : Option String) (site : Site)
    (hcast : convertUnder r .toInternal owner (some v.lift) site s = .ok (some w))
    (hread : form.read w = .ok a) : fit.Means v a :=
  match fit, a with
  | .text, _ => by
      obtain ⟨hadmits, hw⟩ := (convertUnder_kind_eq_ok_iff (by decide)).1 hcast
      obtain rfl := Option.some.inj hw
      cases v with
      | string t => exact congrArg Value.string (Except.ok.inj hread)
      | atom t => exact t.elim
      | _ => cases hadmits
  | .flag, _ => by
      obtain ⟨hadmits, hw⟩ := (convertUnder_kind_eq_ok_iff (by decide)).1 hcast
      obtain rfl := Option.some.inj hw
      cases v with
      | bool b => exact congrArg Value.bool (Except.ok.inj hread)
      | atom t => exact t.elim
      | _ => cases hadmits
  | .number, _ => by
      obtain ⟨hadmits, hw⟩ := (convertUnder_kind_eq_ok_iff (by decide)).1 hcast
      obtain rfl := Option.some.inj hw
      cases v with
      | number n => exact congrArg Value.number (Except.ok.inj hread)
      | atom t => exact t.elim
      | _ => cases hadmits
  | .anything, us => by
      obtain ⟨items, outs, hitems, hw, hall⟩ := (convertUnder_array_eq_ok_iff_forall₂ hr).1 hcast
      obtain ⟨vs, rfl, rfl⟩ := Json.exists_of_lift_eq_array (Option.some.inj hitems)
      obtain rfl := Option.some.inj hw
      rw [List.forall₂_map_left_iff] at hall
      -- any element is kept as it is, and read as it is
      have hsame : List.Forall₂ (· = ·) vs us := by
        refine (forall₂_trans hall (readItems_eq_ok_iff.1 hread)).imp fun v a hva => ?_
        obtain ⟨d, hd, ha⟩ := hva
        rw [convert_eq_convertUnder] at hd
        obtain rfl := Option.some.inj ((convertUnder_kind_eq_ok_iff (by decide)).1 hd).2
        exact (Json.toJson_lift v).symm.trans (Except.ok.inj ha)
      rw [List.forall₂_eq_eq_eq] at hsame
      exact congrArg Value.array hsame
  | .list fit, _ => by
      obtain ⟨items, outs, hitems, hw, hall⟩ := (convertUnder_array_eq_ok_iff_forall₂ hr).1 hcast
      obtain ⟨vs, rfl, rfl⟩ := Json.exists_of_lift_eq_array (Option.some.inj hitems)
      obtain rfl := Option.some.inj hw
      rw [List.forall₂_map_left_iff] at hall
      refine ⟨vs, rfl, ?_⟩
      refine (forall₂_trans hall (readItems_eq_ok_iff.1 hread)).imp fun v a hva => ?_
      obtain ⟨d, hd, ha⟩ := hva
      rw [convert_eq_convertUnder] at hd
      exact fit.means hr v none site hd ha
  | .word spell hspell hwords, _ => by
      obtain ⟨word, hword, hx, hw⟩ := convertUnder_literals_eq_ok_iff.1 hcast
      obtain ⟨b, rfl⟩ := hwords word hword
      rw [hx] at hw
      obtain rfl := Option.some.inj hw
      rw [Form.read] at hread
      simp only [(hspell b).2, Except.ok.injEq] at hread
      obtain rfl := hread
      exact Json.lift_injective (Option.some.inj hx : v.lift = Json.lift (.string _))
  | .reference hname fit, _ => by
      rw [convertUnder_reference hr hname] at hcast
      exact fit.means hr v _ site hcast hread
  | .record make split hmake hsplit hwire hinternal fit, _ => by
      have hnames := nodup_names hwire hinternal .toInternal
      obtain ⟨members, results, hmembers, hresults, -, hw⟩ :=
        (convertUnder_strict_eq_ok_iff hnames.1 hnames.2).1 hcast
      obtain ⟨ms, rfl, rfl⟩ := Json.exists_of_lift_eq_object (Option.some.inj hmembers)
      obtain rfl := Option.some.inj hw
      rw [Form.read, Result.map_eq_ok_iff] at hread
      obtain ⟨x, hx, rfl⟩ := hread
      refine ⟨ms, rfl, ?_⟩
      rw [hsplit]
      exact fit.means hr ms owner hresults
        (fun w hw => find?_present_zip hnames.2 hresults.length_eq hw)
        (Result.mapError_eq_ok_iff.1 hx)

/-- The same for the fields of a record, which are read of members under their internal names. -/
theorem FieldsFit.means (hr : r.Acyclic) {ρ : Type} {fields : Fields ρ}
    {properties : List (Property Schema)} (fit : FieldsFit r properties fields) (ms : Table Json)
    {results : List (Option Data)} {members : Table Data} {x : ρ} (owner : Option String)
    (hcast : List.Forall₂ (fun p v => convertProperty r .toInternal owner
      (ms.map fun m => (m.1, m.2.lift)) p = .ok v) properties results)
    (hmembers : ∀ w ∈ properties.zip results, Table.find? members w.1.internalName = w.2)
    (hread : fields.readMembers members = .ok x) : fit.Means ms x :=
  match fit, hcast, x with
  | .nil, _, _ => trivial
  | .required p fit others, .cons hv hrest, (a, x) => by
      obtain ⟨ha, hx⟩ := both_eq_ok_iff.1 hread
      have hw := hmembers _ List.mem_cons_self
      refine ⟨?_, others.means hr ms owner hrest
        (fun w hw => hmembers w (List.mem_cons_of_mem _ hw)) hx⟩
      rw [convertProperty, Table.find?_map, convert_eq_convertUnder] at hv
      cases ho : Table.find? ms (Direction.toInternal.sourceName p) with
      | none =>
          rw [ho] at hv
          exact absurd hv (fit.not_absent hr none)
      | some j =>
          rw [ho] at hv
          obtain ⟨w, rfl⟩ := exists_some_of_eq_ok hr hv
          exact ⟨j, ho, fit.means hr j none _ hv ((placed_eq_ok_iff hw).1 ha)⟩
  | .nullable p hp others, .cons hv hrest, (t, x) => by
      obtain ⟨ht, hx⟩ := both_eq_ok_iff.1 hread
      have hw := hmembers _ List.mem_cons_self
      refine ⟨?_, others.means hr ms owner hrest
        (fun w hw => hmembers w (List.mem_cons_of_mem _ hw)) hx⟩
      rw [convertProperty, Table.find?_map, hp] at hv
      obtain ⟨j, -, hj, -⟩ := exists_instant_of_convert hv
      rw [hj] at hv
      exact ⟨j, hj, meansInstant_of_read hv hw ht⟩
  | .omittable p hp others, .cons hv hrest, (t, x) => by
      obtain ⟨ht, hx⟩ := both_eq_ok_iff.1 hread
      have hw := hmembers _ List.mem_cons_self
      refine ⟨?_, others.means hr ms owner hrest
        (fun w hw => hmembers w (List.mem_cons_of_mem _ hw)) hx⟩
      rw [convertProperty, Table.find?_map, hp] at hv
      cases ho : Table.find? ms (Direction.toInternal.sourceName p) with
      | none =>
          rw [ho, Option.map_none, convert_optional_none] at hv
          obtain rfl := Except.ok.inj hv
          rw [placed_of_none hw] at ht
          exact .inl ⟨ho, (Except.ok.inj ht).symm⟩
      | some j =>
          rw [ho, Option.map_some, convert_optional_some_iff] at hv
          exact .inr ⟨j, ho, meansInstant_of_read hv hw ht⟩

end

/-! ## Documents -/

namespace Document

/-- What a text is read as, its JSON value means. -/
theorem exists_means_of_read {text : String} {document : Document} (h : read text = .ok document) :
    ∃ v, Json.read text = .ok v ∧ fit.Means v document := by
  obtain ⟨d, hd, hdocument⟩ := Result.bind_eq_ok_iff.1 h
  obtain ⟨v, hv, hcast⟩ := Result.bind_eq_ok_iff.1 hd
  have hcast := Result.mapError_eq_ok_iff.1 hcast
  rw [Engine.cast, run_eq_ok_iff acyclic_registry] at hcast
  exact ⟨v, Result.mapError_eq_ok_iff.1 hv,
    fit.means acyclic_registry v none .root hcast (Result.mapError_eq_ok_iff.1 hdocument)⟩

end Document

end Agenda
