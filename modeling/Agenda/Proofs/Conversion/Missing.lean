/-
Names that are not registered.

A conversion follows the references of the schemas that it comes upon, and which ones these are
depends on the value. The check of a registry goes through all schemas without a value. So whatever
name a conversion fails to find has been found missing by the check, unless it is the name that was
asked for in the first place. Of a union this holds as well: a candidate that rejects is passed over
in silence, but one that meets a missing name ends the search, also where a later candidate would
take the value.
-/
import Agenda.Proofs.Conversion.Steps

set_option autoImplicit false

namespace Agenda.Engine

variable {r : Registry} {d : Direction}

/-- A run fails by rejecting, or for want of the name that is asked for or of one that is referred
to somewhere in the registry. -/
theorem failsOnly_run {P : ConversionError → Prop} (hacyclic : r.Acyclic)
    (hP : ∀ rejection, P (.rejected rejection))
    (hmissing : ∀ name, r.Part (.reference name) → r.find? name = none → P (.schemaNotFound name))
    {name : String} (hname : r.find? name = none → P (.schemaNotFound name)) (v : Data) :
    FailsOnly P (run r d name v) := by
  rw [run, convert_eq_convertUnder]
  refine FailsOnly.bind ?_ ?_
  · cases hfind : r.find? name with
    | none =>
        rw [convertUnder_reference_of_none hfind]
        exact .error (hname hfind)
    | some s =>
        rw [convertUnder_reference hacyclic hfind]
        exact failsOnly hacyclic hP hmissing (some v) (.registered hfind) (some name) .root
  · intro out
    exact .ok _

/-- Where no reference is reported, a run under a registered name comes to a result or to a
rejection. -/
theorem settles_run_of_resolved (hacyclic : r.Acyclic)
    (hissues : ∀ owner target, Issue.danglingReference owner target ∉ r.issues) {name : String}
    (hname : name ∈ r.names) (v : Data) : Settles (run r d name v) := by
  rw [settles_iff_failsOnly]
  refine failsOnly_run hacyclic ?_ ?_ ?_ v
  · intro rejection
    exact ⟨rejection, rfl⟩
  · intro target hpart hnone
    obtain ⟨s, hs⟩ := hpart.resolves hissues
    rw [hnone] at hs
    cases hs
  · intro hnone
    obtain ⟨s, hs⟩ := Registry.mem_names_iff.1 hname
    rw [hnone] at hs
    cases hs

/-- A name that a run misses is not registered, and it is the one that was asked for or stands as a
reference in a registered schema. -/
theorem missing_of_run_eq_error (hacyclic : r.Acyclic) {name missing : String} {v : Data}
    (h : run r d name v = .error (.schemaNotFound missing)) :
    missing ∉ r.names ∧ (missing = name ∨ r.Part (.reference missing)) := by
  have hnot : ∀ {n}, r.find? n = none → n ∉ r.names := fun hnone => Table.find?_eq_none_iff.1 hnone
  have hfails : FailsOnly (fun e => ∀ n, e = .schemaNotFound n →
      n ∉ r.names ∧ (n = name ∨ r.Part (.reference n))) (run r d name v) := by
    refine failsOnly_run hacyclic ?_ ?_ ?_ v
    · rintro rejection n ⟨⟩
    · rintro n hpart hnone _ ⟨⟩
      exact ⟨hnot hnone, .inr hpart⟩
    · rintro hnone _ ⟨⟩
      exact ⟨hnot hnone, .inl rfl⟩
  exact hfails _ h missing rfl

/-- Over an acyclic registry: without reported references a run under a registered name comes to a
result or to a rejection; in any case a name that is missed is not registered, and is asked for or
referred to; and a union passes on what its candidates miss, whatever stands behind them. -/
theorem run_misses_only_unregistered (hacyclic : r.Acyclic) (d : Direction) (name : String)
    (v : Data) :
    ((∀ owner target, Issue.danglingReference owner target ∉ r.issues) → name ∈ r.names →
      Settles (run r d name v)) ∧
    (∀ missing, run r d name v = .error (.schemaNotFound missing) →
      missing ∉ r.names ∧ (missing = name ∨ r.Part (.reference missing))) ∧
    ∀ (x : Option Data) (site : Site) (before : List Schema) (c : Schema) (after : List Schema)
      (missing : String),
      (∀ b ∈ before, ∃ rejection, convert r d x site b = .error (.rejected rejection)) →
      convert r d x site c = .error (.schemaNotFound missing) →
      convert r d x site (.union (before ++ c :: after)) = .error (.schemaNotFound missing) := by
  refine ⟨?_, ?_, ?_⟩
  · intro hissues hname
    exact settles_run_of_resolved hacyclic hissues hname v
  · intro missing h
    exact missing_of_run_eq_error hacyclic h
  · intro x site before c after missing hbefore hc
    rw [convert_eq_convertUnder, convertUnder_union_eq_schemaNotFound_iff]
    exact ⟨before, c, after, rfl, hbefore, hc⟩

/-- Lengths and the unit they are given in, with one wire name used twice: not a sound registry, but
one in which every reference resolves. -/
def lengths : Registry :=
  Registry.ofList [("Length", .object [⟨"of", "value", .kind .number⟩, ⟨"of", "unit",
    .reference "Unit"⟩] none), ("Unit", .oneOf ["m", "km"])]

theorem lengths_acyclic : lengths.Acyclic := by
  refine Registry.acyclic_of_rank (fun _ => 0) fun p hp name hname => ?_
  have hexposed : p.2.exposed = [] := by
    rcases List.mem_cons.1 hp with rfl | hp
    · rfl
    · obtain rfl := List.mem_singleton.1 hp
      rfl
  rw [hexposed] at hname
  cases hname

/-- Lengths settle although a name is used twice. A tree that is no array misses its other form,
and does so also where anything is taken behind it. -/
theorem trees_misses_only_unregistered :
    Settles (run lengths .toInternal "Length" (.object [("of", .string "km")])) ∧
    ("Shrub" ∉ trees.names ∧ ("Shrub" = "Tree" ∨ trees.Part (.reference "Shrub"))) ∧
    convert trees .toWire (some .null) .root
        (.union ([.kind .string] ++ .reference "Shrub" :: [.kind .any])) =
      .error (.schemaNotFound "Shrub") := by
  have hlengths := (run_misses_only_unregistered lengths_acyclic .toInternal "Length"
    (.object [("of", .string "km")])).1
  have htrees := run_misses_only_unregistered trees_acyclic .toWire "Tree" .null
  refine ⟨hlengths ?_ (by decide +kernel), htrees.2.1 "Shrub" rfl, ?_⟩
  · intro owner target hmem
    have hissues : lengths.issues = [.duplicateWireName "Length" "of"] := by decide +kernel
    rw [hissues] at hmem
    cases List.mem_singleton.1 hmem
  · refine htrees.2.2 (some .null) .root _ _ _ _ ?_ rfl
    intro b hb
    obtain rfl := List.mem_singleton.1 hb
    exact ⟨_, rfl⟩

end Agenda.Engine
