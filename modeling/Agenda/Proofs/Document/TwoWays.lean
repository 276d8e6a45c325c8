/-
A document that was read can be written in two ways: as the typed document, or as the data from
which the typed document was made. Both ways give the same JSON value, member by member and in the
same order, but for one member. When an assignment was made may be missing, and a time of making
that is null in the text is kept in the data and left out of the typed document.
-/
import Agenda.Proofs.Document.Normalize
import Agenda.Proofs.Document.Passing
import Agenda.Proofs.Document.RoundTrip

set_option autoImplicit false

namespace Agenda

open Engine

/-! ## Without the nulls -/

namespace Value

variable {α : Type}

/-- An array with each element changed. Any other value is left alone. -/
def mapElements (f : Value α → Value α) : Value α → Value α
  | array vs => array (vs.map f)
  | v => v

/-- An object with the value under a key changed. Any other value is left alone. -/
def mapMember (key : String) (f : Value α → Value α) : Value α → Value α
  | object members => object (members.map fun m => (m.1, if m.1 = key then f m.2 else m.2))
  | v => v

end Value

/-- A document as JSON or data, without the times of making that are null. -/
def Document.withoutNullCreated {α : Type} (v : Value α) : Value α :=
  v.mapMember "items" (Value.mapElements (Value.withoutNulls ["aangemaaktOpDatumTijd"]))

namespace Json

theorem isNull_lift (v : Json) : v.lift.isNull = v.isNull := by
  cases v with
  | atom t => exact t.elim
  | _ => rfl

theorem lift_withoutNulls (names : List String) (v : Json) :
    Json.lift (v.withoutNulls names) = v.lift.withoutNulls names := by
  cases v with
  | object members =>
      rw [Value.withoutNulls, lift_object, lift_object, Value.withoutNulls, Value.keptMembers,
        Value.keptMembers, List.filter_map]
      simp only [Function.comp_def, isNull_lift]
  | atom t => exact t.elim
  | _ => rfl

theorem lift_mapElements {f : Json → Json} {g : Data → Data} (h : ∀ v : Json, (f v).lift = g v.lift)
    (v : Json) : Json.lift (v.mapElements f) = v.lift.mapElements g := by
  cases v with
  | array vs =>
      rw [Value.mapElements, lift_array, lift_array, Value.mapElements, List.map_map, List.map_map]
      exact congrArg Value.array (List.map_congr_left fun v _ => h v)
  | atom t => exact t.elim
  | _ => rfl

theorem lift_mapMember {f : Json → Json} {g : Data → Data} (h : ∀ v : Json, (f v).lift = g v.lift)
    (key : String) (v : Json) : Json.lift (v.mapMember key f) = v.lift.mapMember key g := by
  cases v with
  | object members =>
      rw [Value.mapMember, lift_object, lift_object, Value.mapMember, List.map_map, List.map_map]
      refine congrArg Value.object (List.map_congr_left fun m _ => ?_)
      simp only [Function.comp_apply, apply_ite Json.lift, h]
  | atom t => exact t.elim
  | _ => rfl

end Json

namespace Document

theorem lift_withoutNullCreated (v : Json) :
    Json.lift (withoutNullCreated v) = withoutNullCreated v.lift :=
  Json.lift_mapMember (Json.lift_mapElements (Json.lift_withoutNulls _)) _ v

/-! ## The two ways agree -/

/-- What a document was made of is taken back to what is written of it, but for the times of making
that are null. -/
theorem withoutNullCreated_eq_wire {z : Data} {w : Document}
    (h : Passes registry form (.reference root) z w) (hplain : ∀ t ∈ w.instants, t.IsPlain) :
    withoutNullCreated z = w.wire := by
  have hroot : registry.find? root = some (.object [.plain "items" (listOf "Item")] none) := rfl
  obtain ⟨results, ⟨as, _⟩, rfl, rfl, hfields⟩ :=
    (h.of_reference acyclic_registry hroot).record (by decide +kernel) (by decide +kernel)
  obtain ⟨z, others, rfl, hitems, members, hothers, -⟩ :=
    PassesAll.required acyclic_registry (.list assignmentFit) hfields
  cases hothers
  obtain ⟨zs, rfl, hzs⟩ := Passes.list acyclic_registry hitems
  -- every assignment is rendered, up to its time of making
  have hwire : zs.map (Value.withoutNulls ["aangemaaktOpDatumTijd"]) =
      as.map (assignmentFit.render Property.wireName canonicalText) := by
    refine eq_map_of_forall₂ (List.forall₂_map_left_iff.2 (forall₂_imp_of_mem hzs.flip ?_).flip)
    intro a ha z hza
    refine Passes.withoutNulls_eq_render acyclic_registry assignmentFit rfl hza fun t ht => ?_
    rw [instants_assignment] at ht
    exact hplain t (List.mem_flatMap.2 ⟨a, ha, ht⟩)
  show Value.object [("items", .array (zs.map (Value.withoutNulls ["aangemaaktOpDatumTijd"])))] = _
  rw [hwire]
  rfl

/-- A document that was read, with all its instants in plain years, is written, and what is written
is what the data it was made of are taken back to, with the members in the same order, without the
times of making that are null. -/
theorem write_eq_withoutNullCreated {text : String} {w : Document} (h : read text = .ok w)
    (hplain : ∀ t ∈ w.instants, t.IsPlain) :
    ∃ (d : Data) (z : Json), readData text = .ok d ∧ uncast registry root d = .ok z.lift ∧
      writeData d = .ok z.lift.pretty ∧
      uncast registry root w.toJson.lift = .ok (Json.lift (withoutNullCreated z)) ∧
      w.write = .ok (Json.lift (withoutNullCreated z)).pretty := by
  obtain ⟨d, hd, hw⟩ := Result.bind_eq_ok_iff.1 h
  obtain ⟨v, hv, hcast⟩ := Result.bind_eq_ok_iff.1 hd
  rw [Result.mapError_eq_ok_iff] at hv hcast
  rw [ofData, Result.mapError_eq_ok_iff] at hw
  obtain ⟨z, hz, -⟩ := exists_normalizes_of_cast (Json.fits_of_read hv).2 hcast
  have hpasses : Passes registry form (.reference root) z.lift w := by
    rw [Engine.cast, run_eq_ok_iff acyclic_registry] at hcast
    have hback := hz
    rw [uncast, run_eq_ok_iff acyclic_registry] at hback
    exact ⟨v, d, ⟨_, _, hcast⟩, ⟨_, _, hback⟩, hw⟩
  have hwire : Json.lift (withoutNullCreated z) = w.wire := by
    rw [lift_withoutNullCreated, withoutNullCreated_eq_wire hpasses hplain]
  refine ⟨d, z, hd, hz, ?_, ?_, ?_⟩
  · rw [writeData, hz]
    rfl
  · rw [hwire, uncast_of_plain hplain]
  · rw [hwire, write_of_plain hplain]

/-- A document that says nothing of when its assignment was made, with a leap second for a date. -/
def undated : Document :=
  single (.integer 0 Number.zero_fits) []
    (some ⟨1483228799, 1001000000, by decide, by decide, by decide, by decide⟩) none

/-- The same as JSON, with null for the time of making. -/
def undatedJson : Json :=
  undated.wire.toJson.mapMember "items" <| Value.mapElements fun v =>
    match v with
    | .object members => .object (members ++ [("aangemaaktOpDatumTijd", .null)])
    | v => v

/-- The null is there when the data are written, and is missing when the document is. A document has
one way to say that a date is not known, and data have two. -/
theorem undated_write_eq_withoutNullCreated :
    read undatedJson.lift.pretty = .ok undated ∧ (∀ t ∈ undated.instants, t.IsPlain) ∧
      ∃ (d : Data) (z : Json), readData undatedJson.lift.pretty = .ok d ∧
        writeData d = .ok z.lift.pretty ∧
        z.lift.at? [.key "items", .index 0, .key "aangemaaktOpDatumTijd"] = some .null ∧
        undated.write = .ok (Json.lift (withoutNullCreated z)).pretty := by
  have hjson := Json.read_pretty_lift (v := undatedJson) (by decide +kernel) (by decide +kernel)
    (by decide +kernel)
  have hread : read undatedJson.lift.pretty = .ok undated := by
    rw [read, readData, hjson]
    rfl
  have hplain : ∀ t ∈ undated.instants, t.IsPlain := by decide +kernel
  obtain ⟨d, z, hd, hz, hwriteData, -, hwrite⟩ := write_eq_withoutNullCreated hread hplain
  refine ⟨hread, hplain, d, z, hd, hwriteData, ?_, hwrite⟩
  have hkept : ((cast registry root undatedJson.lift >>= uncast registry root).toOption.bind
      fun z => z.at? [.key "items", .index 0, .key "aangemaaktOpDatumTijd"]).map Value.isNull =
        some true := by decide +kernel
  rw [readData, hjson, Result.mapError_ok, Result.ok_bind, Result.mapError_eq_ok_iff] at hd
  rw [hd, Result.ok_bind, hz, Result.toOption_ok, Option.bind_some, Option.map_eq_some_iff] at hkept
  obtain ⟨v, hv, hnull⟩ := hkept
  rw [hv]
  cases v with
  | null => rfl
  | _ => cases hnull

end Document

end Agenda
