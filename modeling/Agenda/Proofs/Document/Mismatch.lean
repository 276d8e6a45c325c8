/-
The place of a mismatch.

A reader is done with a value once it is done with all its parts, so the spots of a value that it
reads have an order: those of the first part, those of the second and so on, and the value itself
at the end. A mismatch is reported at the first spot in this order at which something does not fit.
What stands there does not fit by itself, for the reason that is reported, and the text of the
path leads there.
-/
import Agenda.Proofs.Document.Parts
import Agenda.Proofs.Document.Types

set_option autoImplicit false

namespace Agenda

/-! ## The spots of a value -/

/-- A spot in a value: the path to it, what is expected there, and what stands there. -/
structure Spot : Type 1 where
  path : Path
  expected : Expected
  value : Data

namespace Spot

/-- Why what stands there does not fit, taken by itself. -/
def failure? (s : Spot) : Option Mismatch := s.expected.failure? s.value

/-- The same spot, seen from one step above. -/
def below (step : Step) (s : Spot) : Spot := { s with path := step :: s.path }

@[simp] theorem failure?_below (step : Step) (s : Spot) :
    (s.below step).failure? = s.failure? := rfl

end Spot

theorem Value.sizeOf_lt_of_step? {v u : Data} {step : Step} (h : v.step? step = some u) :
    sizeOf u < sizeOf v := by
  cases v with
  | array items =>
      cases step with
      | index i =>
          have hlt := List.sizeOf_lt_of_mem (List.mem_of_getElem? h)
          simp only [array.sizeOf_spec]
          omega
      | key name => cases h
  | object members =>
      cases step with
      | index i => cases h
      | key name =>
          have hlt := List.sizeOf_lt_of_mem (Table.mem_of_find? h)
          simp only [object.sizeOf_spec, Prod.mk.sizeOf_spec] at hlt ⊢
          omega
  | _ => cases step <;> cases h

theorem Expected.step?_of_mem_parts {e : Expected} {d : Data} {p : Part} (h : p ∈ e.parts d) :
    d.step? p.step = some p.value := by
  cases e with
  | value form => exact Form.step?_of_mem_parts h
  | orNull form => exact Form.step?_of_mem_parts h

theorem Expected.regular_of_mem_parts {e : Expected} (he : e.regular = true) {d : Data} {p : Part}
    (h : p ∈ e.parts d) : p.expected.regular = true ∧
      ∀ key, p.step = .key key → Path.isPlainKey key = true := by
  cases e with
  | value form => exact Form.regular_of_mem_parts he h
  | orNull form => exact Form.regular_of_mem_parts he h

/-- The spots of a value that are read, in the order in which the reader is done with them. -/
def Expected.spots (e : Expected) (d : Data) : List Spot :=
  ((e.parts d).attach.flatMap fun p => (p.1.expected.spots p.1.value).map (Spot.below p.1.step)) ++
    [⟨[], e, d⟩]
termination_by sizeOf d
decreasing_by exact Value.sizeOf_lt_of_step? (Expected.step?_of_mem_parts p.2)

/-- The spots of the parts of a value, one part after the other, seen from the value. -/
def Part.spots (p : Part) : List Spot := (p.expected.spots p.value).map (Spot.below p.step)

theorem Expected.spots_eq (e : Expected) (d : Data) :
    e.spots d = (e.parts d).flatMap Part.spots ++ [⟨[], e, d⟩] := by
  rw [Expected.spots, List.flatMap_subtype (g := Part.spots) (fun _ _ => rfl),
    List.unattach_attach]

/-- What holds of a value once it holds of its parts holds of every value. -/
theorem Expected.parts_induction {motive : Expected → Data → Prop}
    (h : ∀ e d, (∀ p ∈ e.parts d, motive p.expected p.value) → motive e d) (e : Expected)
    (d : Data) : motive e d :=
  h e d fun p _ => parts_induction h p.expected p.value
termination_by sizeOf d
decreasing_by exact Value.sizeOf_lt_of_step? (Expected.step?_of_mem_parts ‹_›)

section

variable {e : Expected} {d : Data} {s : Spot}

theorem mem_spots_iff : s ∈ e.spots d ↔ s = ⟨[], e, d⟩ ∨
    ∃ p ∈ e.parts d, ∃ u ∈ p.expected.spots p.value, s = u.below p.step := by
  rw [Expected.spots_eq, List.mem_append, List.mem_singleton, List.mem_flatMap, or_comm]
  simp only [Part.spots, List.mem_map, eq_comm]

/-- The path of a spot leads there. -/
theorem at?_of_mem_spots (h : s ∈ e.spots d) : d.at? s.path = some s.value := by
  induction e, d using Expected.parts_induction generalizing s with
  | h e d ih =>
      rcases mem_spots_iff.1 h with rfl | ⟨p, hp, u, hu, rfl⟩
      · rfl
      · show d.at? (p.step :: u.path) = some u.value
        rw [Value.at?, Expected.step?_of_mem_parts hp, Option.bind_some, ih p hp hu]

/-- In a regular form the keys on it are told apart in its text. -/
theorem plain_of_mem_spots (he : e.regular = true) (h : s ∈ e.spots d) : s.path.Plain := by
  induction e, d using Expected.parts_induction generalizing s with
  | h e d ih =>
      rcases mem_spots_iff.1 h with rfl | ⟨p, hp, u, hu, rfl⟩
      · intro key hkey
        cases hkey
      · obtain ⟨hregular, hplain⟩ := Expected.regular_of_mem_parts he hp
        intro key hkey
        rcases List.mem_cons.1 hkey with hkey | hkey
        · exact hplain key hkey.symm
        · exact ih p hp hregular hu key hkey

/-! ## What fits, and what is reported -/

theorem Part.failure?_eq_none_iff {p : Part} :
    p.failure? = none ↔ p.expected.failure? p.value = none := by
  rw [Part.failure?, Option.map_eq_none_iff]

/-- In a value that fits everything that is read fits. -/
theorem fits_of_mem_spots (he : e.regular = true) (hfits : e.failure? d = none)
    (h : s ∈ e.spots d) : s.failure? = none := by
  induction e, d using Expected.parts_induction generalizing s with
  | h e d ih =>
      rcases mem_spots_iff.1 h with rfl | ⟨p, hp, u, hu, rfl⟩
      · exact hfits
      · obtain ⟨own, hown⟩ := Expected.blames_failure? he d
        rw [hfits, eq_comm, Option.or_eq_none_iff, List.findSome?_eq_none_iff] at hown
        have hpart := Part.failure?_eq_none_iff.1 (hown.1 p hp)
        rw [Spot.failure?_below]
        exact ih p hp (Expected.regular_of_mem_parts he hp).1 hpart hu

/-- The spots before the one that is reported fit. -/
theorem fits_of_mem_parts_spots (he : e.regular = true) {parts : List Part}
    (hsub : parts ⊆ e.parts d) (hparts : ∀ p ∈ parts, p.failure? = none)
    (h : s ∈ parts.flatMap Part.spots) : s.failure? = none := by
  obtain ⟨p, hp, hs⟩ := List.mem_flatMap.1 h
  obtain ⟨u, hu, rfl⟩ := List.mem_map.1 hs
  rw [Spot.failure?_below]
  exact fits_of_mem_spots (Expected.regular_of_mem_parts he (hsub hp)).1
    (Part.failure?_eq_none_iff.1 (hparts p hp)) hu

/-- A mismatch is reported at the first spot at which something does not fit, for the reason for
which that does not fit by itself. -/
theorem exists_spot_of_failure? (he : e.regular = true) {m : Mismatch}
    (h : e.failure? d = some m) : ∃ before spot after, e.spots d = before ++ spot :: after ∧
      spot.path = m.path ∧ spot.failure? = some ⟨[], m.misfit⟩ ∧
      ∀ s ∈ before, s.failure? = none := by
  induction e, d using Expected.parts_induction generalizing m with
  | h e d ih =>
      obtain ⟨own, hown⟩ := Expected.blames_failure? he d
      rw [Expected.spots_eq]
      cases hfirst : (e.parts d).findSome? Part.failure? with
      | none =>
          -- all parts fit, so the value itself is at fault
          rw [h, hfirst, Option.none_or, eq_comm, Option.map_eq_some_iff] at hown
          obtain ⟨misfit, rfl, rfl⟩ := hown
          refine ⟨(e.parts d).flatMap Part.spots, ⟨[], e, d⟩, [], rfl, rfl, h, fun s hs => ?_⟩
          exact fits_of_mem_parts_spots he (List.Subset.refl _)
            (List.findSome?_eq_none_iff.1 hfirst) hs
      | some m' =>
          rw [h, hfirst, Option.some_or, Option.some.injEq] at hown
          subst hown
          obtain ⟨first, p, others, hparts, hp, hfits⟩ := List.findSome?_eq_some_iff.1 hfirst
          have hmem : p ∈ e.parts d := by rw [hparts]; simp
          obtain ⟨u, hu, rfl⟩ := Option.map_eq_some_iff.1 hp
          obtain ⟨before, spot, after, hspots, hpath, hfailure, hbefore⟩ :=
            ih p hmem (Expected.regular_of_mem_parts he hmem).1 hu
          refine ⟨first.flatMap Part.spots ++ before.map (Spot.below p.step), spot.below p.step,
            after.map (Spot.below p.step) ++ (others.flatMap Part.spots ++ [⟨[], e, d⟩]), ?_, ?_,
            hfailure, fun s hs => ?_⟩
          · have hp' : p.spots = before.map (Spot.below p.step) ++
                spot.below p.step :: after.map (Spot.below p.step) := by
              rw [Part.spots, hspots, List.map_append, List.map_cons]
            rw [hparts, List.flatMap_append, List.flatMap_cons, hp']
            simp only [List.append_assoc, List.cons_append]
          · exact congrArg (p.step :: ·) hpath
          · rcases List.mem_append.1 hs with hs | hs
            · have hsub : first ⊆ e.parts d := by
                rw [hparts]
                exact List.subset_append_left _ _
              exact fits_of_mem_parts_spots he hsub hfits hs
            · obtain ⟨t, ht, rfl⟩ := List.mem_map.1 hs
              exact hbefore t ht

end

/-! ## The types of the model -/

/-- The forms of the model are regular. -/
theorem ModelType.regular (m : ModelType) : (Expected.value m.form).regular = true := by
  cases m <;> decide

/-- If data cannot be read as a type of the model, then the text of the path that is reported leads
to a spot in the data. What stands there cannot be read, by itself, as what is expected there, for
the reason that is reported, and all spots with which the reader is done before that one fit. -/
theorem ModelType.mismatch_located (m : ModelType) (d : Data) {mismatch : Mismatch}
    (h : m.form.read d = .error mismatch) :
    Path.ofText? mismatch.path.text = some mismatch.path ∧
      ∃ before spot after, (Expected.value m.form).spots d = before ++ spot :: after ∧
        spot.path = mismatch.path ∧ d.at? mismatch.path = some spot.value ∧
        spot.failure? = some ⟨[], mismatch.misfit⟩ ∧ ∀ s ∈ before, s.failure? = none := by
  have hfailure : (Expected.value m.form).failure? d = some mismatch :=
    Result.failure?_eq_some_iff.2 h
  obtain ⟨before, spot, after, hspots, hpath, hspot, hbefore⟩ :=
    exists_spot_of_failure? m.regular hfailure
  have hmem : spot ∈ (Expected.value m.form).spots d := by rw [hspots]; simp
  rw [← hpath]
  exact ⟨Path.ofText?_text (plain_of_mem_spots m.regular hmem), before, spot, after, hspots, rfl,
    at?_of_mem_spots hmem, hspot, hbefore⟩

/-- An establishment of which nothing is given but its links. The identifier of the second link is
a text, and the link has no address. -/
def misnumbered : Data :=
  .object [("links", .array [
    .object [("id", .number (.integer 1 Number.one_fits)), ("rel", .string "self"),
      ("type", .string "instelling.RVestiging"), ("href", .string "")],
    .object [("rel", .string "self"), ("id", .string "1")]])]

/-- Of all that is wrong with it the identifier is reported, being read before anything can be
missed. -/
theorem misnumbered_mismatch_located : ∃ mismatch,
    ModelType.establishment.form.read misnumbered = .error mismatch ∧
      mismatch.path.text = "links[1].id" ∧
      mismatch.misfit.message = "invalid type: string \"1\", expected a JSON number" ∧
      misnumbered.at? mismatch.path = some (.string "1") ∧
      ∃ before spot after,
        (Expected.value ModelType.establishment.form).spots misnumbered =
          before ++ spot :: after ∧ spot.path = mismatch.path ∧
        spot.failure? = some ⟨[], mismatch.misfit⟩ ∧ ∀ s ∈ before, s.failure? = none := by
  have hreport : (Result.failure? (ModelType.establishment.form.read misnumbered)).map
      (fun m => (m.path, m.misfit.message)) =
        some ([.key "links", .index 1, .key "id"],
          "invalid type: string \"1\", expected a JSON number") := by decide +kernel
  obtain ⟨mismatch, hmismatch, hshown⟩ := Option.map_eq_some_iff.1 hreport
  rw [Result.failure?_eq_some_iff] at hmismatch
  obtain ⟨hpath, hmessage⟩ := Prod.mk.inj hshown
  obtain ⟨-, before, spot, after, hspots, hspot, -, hfailure, hbefore⟩ :=
    ModelType.mismatch_located .establishment misnumbered hmismatch
  refine ⟨mismatch, hmismatch, ?_, hmessage, ?_, before, spot, after, hspots, hspot, hfailure,
    hbefore⟩
  · rw [hpath]
    decide +kernel
  · rw [hpath]
    rfl

end Agenda
