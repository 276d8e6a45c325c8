/-
Reading a document: the typed model is as wide as the schema.

The text is read as JSON, the schema engine validates it, and the form makes a typed document of
what comes out. The last step adds nothing to what can go wrong. The registry is sound and its names
lead nowhere without a value, so the engine does nothing worse than to reject; and the form fits the
schema, so it reads whatever the engine lets through.
-/
import Agenda.Proofs.Document.Agreement
import Agenda.Proofs.Document.Instants

set_option autoImplicit false

namespace Agenda.Document

open Engine

/-! ## Stages -/

/-- The registry has the schema of a whole document. -/
theorem part_root : ∃ s, registry.find? root = some s ∧ registry.Part s := by
  have hroot : registry.find? root = some (strict [.plain "items" (listOf "Item")]) := rfl
  exact ⟨_, hroot, .registered hroot⟩

/-- The engine converts a value under the bundled registry or rejects it. -/
theorem settles_run (d : Direction) (v : Data) : Settles (run registry d root v) := by
  obtain ⟨s, hroot, hpart⟩ := part_root
  rw [run, convert_eq_convertUnder, convertUnder_reference acyclic_registry hroot]
  refine Settles.bind ?_ fun out _ => .ok _
  exact settles acyclic_registry (Registry.sound_of_issues_eq_nil issues_registry) (some v) hpart
    (some root) .root

/-- What the engine makes of a JSON value, the form of documents reads. -/
theorem exists_reads_of_cast {v : Json} {d : Data} (h : Engine.cast registry root v.lift = .ok d) :
    ∃ w, fit.Reads v.lift d w := by
  rw [Engine.cast, run_eq_ok_iff acyclic_registry] at h
  exact fit.exists_reads acyclic_registry v none .root h

/-- A converted document is a typed one. -/
theorem exists_ofData_of_readData {text : String} {d : Data} (h : readData text = .ok d) :
    ∃ w, ofData d = .ok w := by
  obtain ⟨v, -, hcast⟩ := Result.bind_eq_ok_iff.1 h
  obtain ⟨w, hw⟩ := exists_reads_of_cast (Result.mapError_eq_ok_iff.1 hcast)
  exact ⟨_, Result.mapError_eq_ok_iff.2 hw.read⟩

/-! ## Errors -/

/-- Reading as data fails if the text is no JSON, or if the engine rejects the value. -/
theorem readData_eq_error {text : String} {e : DocumentError} (h : readData text = .error e) :
    (∃ err, Json.read text = .error err ∧ e = .malformed err) ∨
      ∃ v rejection, Json.read text = .ok v ∧ e = .conversion (.rejected rejection) := by
  rw [readData] at h
  cases hjson : Json.read text with
  | error err =>
      rw [hjson] at h
      exact .inl ⟨err, rfl, (Except.error.inj h).symm⟩
  | ok v =>
      rw [hjson, Result.mapError_ok, Result.ok_bind] at h
      rcases settles_run .toInternal v.lift with ⟨d, hd⟩ | ⟨rejection, hrejected⟩
      · rw [Engine.cast, hd] at h
        cases h
      · rw [Engine.cast, hrejected] at h
        exact .inr ⟨v, rejection, rfl, (Except.error.inj h).symm⟩

/-- Reading fails exactly as reading as data does. -/
theorem read_eq_error_iff {text : String} {e : DocumentError} :
    read text = .error e ↔ readData text = .error e := by
  rw [read]
  cases hdata : readData text with
  | error e' => rw [Result.error_bind, Except.error.injEq, Except.error.injEq]
  | ok d =>
      obtain ⟨w, hw⟩ := exists_ofData_of_readData hdata
      rw [Result.ok_bind, hw]
      simp

/-- The typed model is exactly as wide as the schema: a text is read as a document if and only if it
is read as data, and the two fail alike. They fail as malformed exactly if the text is no JSON; of
the other failures only a rejection occurs, and neither a mismatch nor a fault of the registry. -/
theorem read_as_wide_as_readData (text : String) :
    ((∃ w, read text = .ok w) ↔ ∃ d, readData text = .ok d) ∧
      (∀ e, read text = .error e ↔ readData text = .error e) ∧
      (∀ err, read text = .error (.malformed err) ↔ Json.read text = .error err) ∧
      (∀ m, read text ≠ .error (.mismatch m)) ∧
      (∀ name, read text ≠ .error (.conversion (.schemaNotFound name))) ∧
      ∀ name, read text ≠ .error (.conversion (.endless name)) := by
  have hrejected : ∀ e, read text = .error (.conversion e) →
      ∃ rejection, e = .rejected rejection := by
    intro e h
    rcases readData_eq_error (read_eq_error_iff.1 h) with ⟨err, -, heq⟩ | ⟨v, rejection, -, heq⟩
    · cases heq
    · exact ⟨rejection, DocumentError.conversion.inj heq⟩
  refine ⟨?_, fun e => read_eq_error_iff, fun err => ⟨fun h => ?_, fun h => ?_⟩, fun m h => ?_,
    fun name h => ?_, fun name h => ?_⟩
  · constructor
    · rintro ⟨w, hw⟩
      obtain ⟨d, hd, -⟩ := Result.bind_eq_ok_iff.1 hw
      exact ⟨d, hd⟩
    · rintro ⟨d, hd⟩
      -- whatever the engine accepts, the form makes a document of
      obtain ⟨w, hw⟩ := exists_ofData_of_readData hd
      exact ⟨w, Result.bind_eq_ok_iff.2 ⟨d, hd, hw⟩⟩
  · rcases readData_eq_error (read_eq_error_iff.1 h) with
      ⟨err', hjson, heq⟩ | ⟨v, rejection, -, heq⟩
    · obtain rfl := DocumentError.malformed.inj heq
      exact hjson
    · cases heq
  · rw [read_eq_error_iff, readData, h]
    rfl
  · rcases readData_eq_error (read_eq_error_iff.1 h) with ⟨err, -, heq⟩ | ⟨v, rejection, -, heq⟩
    · cases heq
    · cases heq
  · obtain ⟨rejection, heq⟩ := hrejected _ h
    cases heq
  · obtain ⟨rejection, heq⟩ := hrejected _ h
    cases heq

end Agenda.Document
