/-
Reading a document as data and writing it again loses and invents nothing.

What is written holds the same values at the same places, in arrays of the same length and order and
in objects with the same keys. Only the four members that hold timestamps are respelled, each as the
canonical text of the instant that it denotes. Arrays of arbitrary values come out as they went in;
of other objects the members may change places.
-/
import Agenda.Proofs.Conversion.Places
import Agenda.Proofs.Document.Reading
import Agenda.Proofs.Document.Registry
import Agenda.Proofs.Document.RoundTrip

set_option autoImplicit false

namespace Agenda.Document

open Engine

/-- The places of timestamps in a document. -/
def timestampTrails : List Trail :=
  [[.key "items", .each, .key "lesgroep", .key "schooljaar", .key "vanafDatum"],
    [.key "items", .each, .key "lesgroep", .key "schooljaar", .key "totDatum"],
    [.key "items", .each, .key "datumTijd"],
    [.key "items", .each, .key "aangemaaktOpDatumTijd"]]

/-- The places of arrays of arbitrary values. -/
def anythingTrails : List Trail :=
  [[.key "items", .each, .key "studiewijzerItem", .key "bijlagen"],
    [.key "items", .each, .key "studiewijzerItem", .key "externeMaterialen"],
    [.key "items", .each, .key "studiewijzerItem", .key "inlevermomenten"]]

/-- Timestamps stand at these places and nowhere else. -/
theorem trails_registry :
    (Schema.reference root).trailsVia (registry.trailsUnder? registry.size) =
      some timestampTrails := by
  decide +kernel

/-- At each of them a timestamp is what the schema asks for. -/
theorem along_timestampTrails {trail : Trail} (h : trail ∈ timestampTrails) :
    registry.along? (.reference root) trail = some (.kind .timestamp) ∨
      registry.along? (.reference root) trail = some (.optional (.kind .timestamp)) := by
  simp only [timestampTrails, List.mem_cons, List.not_mem_nil, or_false] at h
  rcases h with rfl | rfl | rfl | rfl
  · exact .inl rfl
  · exact .inl rfl
  · exact .inl rfl
  · exact .inr rfl

theorem along_anythingTrails {trail : Trail} (h : trail ∈ anythingTrails) :
    registry.along? (.reference root) trail = some (.array (.kind .any)) := by
  simp only [anythingTrails, List.mem_cons, List.not_mem_nil, or_false] at h
  rcases h with rfl | rfl | rfl <;> rfl

/-- What a JSON value was converted to is taken back to the wire, and is the value normalized. -/
theorem exists_normalizes_of_cast {v : Json} {d : Data} (hv : v.Tabular)
    (h : Engine.cast registry root v.lift = .ok d) :
    ∃ w : Json, uncast registry root d = .ok w.lift ∧
      Normalizes registry (.reference root) v w := by
  obtain ⟨s, hroot, hpart⟩ := part_root
  have hsound := Registry.sound_of_issues_eq_nil issues_registry
  rw [Engine.cast, run_eq_ok_iff acyclic_registry,
    convertUnder_reference acyclic_registry hroot] at h
  obtain ⟨w, hw, hnormal⟩ := exists_returns acyclic_registry hsound separable_registry
    keepsNames_registry hpart hv h
  refine ⟨w, ?_, .reference hroot hnormal⟩
  rw [uncast, run_eq_ok_iff acyclic_registry, convertUnder_reference acyclic_registry hroot]
  exact hw (some root) .root

/-- A text that is read as data is written again, and what is written is the JSON value that was
read, normalized: the texts at timestamps are respelled, arrays of arbitrary values are untouched,
and everywhere else the same scalar stands, or an array of the same length, or an object with the
same keys. -/
theorem exists_writeData_of_readData {text : String} {d : Data} (h : readData text = .ok d) :
    ∃ v w : Json, Json.read text = .ok v ∧ uncast registry root d = .ok w.lift ∧
      writeData d = .ok w.lift.pretty ∧
      (∀ trail ∈ timestampTrails, ∀ path, trail.Allows path →
        Option.Rel Respelled (v.at? path) (w.at? path)) ∧
      (∀ trail ∈ anythingTrails, ∀ path, trail.Allows path → v.at? path = w.at? path) ∧
      ∀ path, (∀ trail ∈ timestampTrails, ¬ trail.Allows path) →
        Option.Rel SameNode (v.at? path) (w.at? path) := by
  obtain ⟨v, hread, hcast⟩ := Result.bind_eq_ok_iff.1 h
  have hv := Result.mapError_eq_ok_iff.1 hread
  obtain ⟨w, hw, hnormal⟩ :=
    exists_normalizes_of_cast (Json.fits_of_read hv).2 (Result.mapError_eq_ok_iff.1 hcast)
  refine ⟨v, w, hv, hw, ?_, fun trail htrail path hpath => ?_, fun trail htrail path hpath => ?_,
    fun path hpath => ?_⟩
  · rw [writeData, hw]
    rfl
  · rcases along_timestampTrails htrail with halong | halong
    · exact optionRel_imp (hnormal.rel_along hpath halong) fun _ _ h => h.respelled
    · exact optionRel_imp (hnormal.rel_along hpath halong) fun _ _ h => h.respelled_of_optional
  · have hrel := hnormal.rel_along hpath (along_anythingTrails htrail)
    exact eq_of_optionRel (optionRel_imp hrel fun _ _ h => h.eq_of_anything)
  · refine hnormal.rel_sameNode fun htimed => ?_
    obtain ⟨trail, htrail, hallows⟩ := Registry.exists_trail_of_timed trails_registry htimed
    exact hpath trail htrail hallows

/-- The document that is set for the year 10000 is written again as data, and its date is
respelled. -/
theorem far_writeData_of_readData : ∃ (d : Data) (w : Json), readData farText = .ok d ∧
    writeData d = .ok w.lift.pretty ∧
    w.at? [.key "items", .index 0, .key "datumTijd"] =
      some (.string "+10000-01-01T00:00:00.000Z") := by
  obtain ⟨d, hd, -⟩ := Result.bind_eq_ok_iff.1 (read_shown (w := far)
    (fun _ _ => read?_tenThousand) (by decide +kernel) (by decide +kernel) (by decide +kernel))
  obtain ⟨v, w, hv, -, hwrite, htimes, -⟩ := exists_writeData_of_readData hd
  have hjson : Json.read farText = .ok (far.shown fun _ => "+10000-01-01").toJson := by
    have h := Json.read_pretty_lift (v := (far.shown fun _ => "+10000-01-01").toJson)
      (by decide +kernel) (by decide +kernel) (by decide +kernel)
    rwa [lift_toJson_shown] at h
  obtain rfl := Except.ok.inj (hv.symm.trans hjson)
  refine ⟨d, w, hd, hwrite, ?_⟩
  -- the date stands at the place of a timestamp, so what is written there is its canonical text
  have hdate := htimes [.key "items", .each, .key "datumTijd"] (by decide)
    [.key "items", .index 0, .key "datumTijd"] (.cons rfl (.cons trivial (.cons rfl .nil)))
  have hfound : (far.shown fun _ => "+10000-01-01").toJson.at?
      [.key "items", .index 0, .key "datumTijd"] = some (.string "+10000-01-01") := rfl
  have hspell : Data.spell tenThousand = "+10000-01-01T00:00:00.000Z" := by decide +kernel
  rw [hfound] at hdate
  generalize w.at? _ = written at hdate ⊢
  cases hdate with
  | some hrel =>
      obtain ⟨hnull, -⟩ | ⟨_, t, ⟨⟩, ht, rfl⟩ := hrel
      · cases hnull
      · rw [read?_tenThousand] at ht
        obtain rfl := Option.some.inj ht
        rw [hspell]

end Agenda.Document
