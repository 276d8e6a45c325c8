/-
What is there stays there.

A conversion keeps absence apart from null, and two places of the engine put null where a part of
the result is absent: the end of a run, and the elements of an array. Neither is ever needed.
Absence is only made from absence, by way of unions, references and kinds that accept it, and what
is converted under a name or stands in an array is present. For an object this means that a key is
left out exactly where there was none, so that under a schema that refuses undeclared keys a
converted object has as many keys as before.
-/
import Agenda.Proofs.Conversion.Surplus

set_option autoImplicit false

namespace Agenda

/-- A schema stands for another one: it is this schema, or it refers to it through names. -/
inductive Registry.StandsFor (r : Registry) : Schema → Schema → Prop where
  | itself (s : Schema) : StandsFor r s s
  | reference {name : String} {s t : Schema} (hname : r.find? name = some s)
      (h : StandsFor r s t) : StandsFor r (.reference name) t

namespace Engine

variable {r : Registry} {d : Direction} {owner : Option String} {x out : Option Data} {site : Site}
  {properties : List (Property Schema)} {members : Table Data}

/-- A value is there after a conversion exactly if it was there before. -/
theorem isSome_eq_of_eq_ok (hr : r.Acyclic) {s : Schema}
    (h : convert r d x site s = .ok out) : out.isSome = x.isSome := by
  rw [convert_eq_convertUnder] at h
  cases x with
  | none => rw [eq_none_of_eq_ok hr h]
  | some v =>
      obtain ⟨w, rfl⟩ := exists_some_of_eq_ok hr h
      rfl

/-- What a schema stands for converts a value like the schema itself, under some name. -/
theorem exists_convertUnder_eq (hr : r.Acyclic) {s t : Schema} (h : r.StandsFor s t)
    (owner : Option String) :
    ∃ last, convertUnder r d owner x site s = convertUnder r d last x site t := by
  induction h generalizing owner with
  | itself s => exact ⟨owner, rfl⟩
  | @reference name s t hname _ ih =>
      obtain ⟨last, hlast⟩ := ih (some name)
      exact ⟨last, by rw [convertUnder_reference hr hname, hlast]⟩

/-! ## Objects without undeclared keys -/

/-- Where undeclared keys are refused, an object that is converted has none. -/
theorem surplus_eq_nil_of_eq_ok (hsource : (properties.map d.sourceName).Nodup)
    (h : convertUnder r d owner (some (.object members)) site (.object properties none) = .ok out) :
    surplus d properties members = [] := by
  obtain ⟨_, _, ws, ⟨⟩, _, hws, _⟩ := (convertUnder_object_eq_ok_iff hsource).1 h
  cases hsurplus : surplus d properties members with
  | nil => rfl
  | cons m rest =>
      rw [hsurplus] at hws
      obtain ⟨_, _, ⟨extra, hextra, _⟩, _⟩ := List.forall₂_cons_left_iff.1 hws
      cases hextra

/-- Such an object becomes one with as many keys. -/
theorem exists_object_of_closed (hr : r.Acyclic) (hsource : (properties.map d.sourceName).Nodup)
    (htarget : (properties.map d.targetName).Nodup) (hkeys : (Table.keys members).Nodup)
    (h : convertUnder r d owner (some (.object members)) site (.object properties none) = .ok out) :
    ∃ all, out = some (.object all) ∧ (Table.keys all).Nodup ∧ all.length = members.length := by
  have hsurplus := surplus_eq_nil_of_eq_ok hsource h
  obtain ⟨vs, ws, hvs, -, rfl⟩ := exists_parts_of_apart_eq_ok hr hsource htarget hkeys
    (by simp [hsurplus]) h
  refine ⟨_, rfl, nodup_keys_of_eq_ok hsource h, ?_⟩
  have hlength := length_filter_add_surplus hsource hkeys
  rw [hsurplus, List.length_nil, Nat.add_zero] at hlength
  rw [hsurplus, Table.keys_nil, List.zip_nil_left, List.append_nil, length_present hr _ hvs,
    hlength]

/-! ## Presence -/

/-- Over an acyclic registry every conversion that succeeds makes something of something and nothing
of nothing. So a run and the elements of an array have no use for null in place of absence, and an
object whose schema refuses undeclared keys and has no name twice keeps the number of its keys. -/
theorem presence_kept (hr : r.Acyclic) (d : Direction) (site : Site) (s : Schema) :
    (∀ x out, convert r d x site s = .ok out → out.isSome = x.isSome) ∧
    (∀ name v w, run r d name v = .ok w ↔
      convert r d (some v) .root (.reference name) = .ok (some w)) ∧
    (∀ element items out, convert r d (some (.array items)) site (.array element) = .ok out ↔
      ∃ outs, out = some (.array outs) ∧
        List.Forall₂ (fun v w => convert r d (some v) site element = .ok (some w)) items outs) ∧
    ∀ properties members out, r.StandsFor s (.object properties none) →
      (properties.map Property.wireName).Nodup → (properties.map Property.internalName).Nodup →
      (Table.keys members).Nodup → convert r d (some (.object members)) site s = .ok out →
      ∃ all, out = some (.object all) ∧ (Table.keys all).Nodup ∧ all.length = members.length := by
  refine ⟨fun x out h => isSome_eq_of_eq_ok hr h, ?_, ?_, ?_⟩
  · intro name v w
    rw [run_eq_ok_iff hr, convert_eq_convertUnder]
  · intro element items out
    rw [convert_eq_convertUnder, convertUnder_array_eq_ok_iff_forall₂ hr]
    constructor
    · rintro ⟨_, outs, ⟨⟩, hout, houts⟩
      exact ⟨outs, hout, houts⟩
    · rintro ⟨outs, hout, houts⟩
      exact ⟨items, outs, rfl, hout, houts⟩
  · intro properties members out hstands hwire hinternal hkeys h
    obtain ⟨last, hlast⟩ := exists_convertUnder_eq hr hstands none
    rw [convert_eq_convertUnder, hlast] at h
    cases d with
    | toInternal => exact exists_object_of_closed (d := .toInternal) hr hwire hinternal hkeys h
    | toWire => exact exists_object_of_closed (d := .toWire) hr hinternal hwire hkeys h

/-- The last stop of a journey. There is no next one, on either side. -/
def lastStop : Table Data :=
  [("leaves_at", .string "2024-09-01 8:05:00"), ("place_name", .string "Utrecht")]

/-- The union over a next stop is given nothing and settles for its absence, so the last stop has
two keys after the conversion as it had before. The schema of a stop stands behind a reference
here. -/
theorem lastStop_presence_kept : ∃ out all,
    convert journey .toInternal (some (.object lastStop)) .root (.reference "Stop") = .ok out ∧
      out = some (.object all) ∧ (Table.keys all).Nodup ∧ all.length = 2 := by
  have hkept := presence_kept journey_acyclic .toInternal .root (.reference "Stop")
  have hok : (convert journey .toInternal (some (.object lastStop)) .root
      (.reference "Stop")).isOk = true := by decide +kernel
  obtain ⟨out, hout⟩ := Result.exists_eq_ok_of_isOk hok
  have hstands : journey.StandsFor (.reference "Stop") stop := .reference rfl (.itself stop)
  obtain ⟨all, hall⟩ :=
    hkept.2.2.2 _ lastStop out hstands (by decide) (by decide) (by decide) hout
  exact ⟨out, all, hout, hall⟩

end Engine

end Agenda
