/-
What the check of a registry promises.

Proofs about conversion never look at the list of issues. They use what an empty list means for
every schema that stands anywhere in the registry: its references resolve, and the names of its
properties are distinct on either side. `Registry.Part` says what "anywhere" is, as a closure: the
registered schemas, and whatever stands inside a part.
-/
import Agenda.Proofs.Table
import Agenda.Schema.Registry
import Agenda.Schema.Renaming

set_option autoImplicit false

namespace Agenda

/-! ## Induction over schemas -/

/-- What holds of a schema if it holds of the schemas inside it holds of every schema. References
lead nowhere here. -/
@[induction_eliminator, elab_as_elim]
theorem Schema.induction {motive : Schema → Prop} (kind : ∀ k, motive (.kind k))
    (literals : ∀ words distinct, motive (.literals words distinct))
    (array : ∀ element, motive element → motive (.array element))
    (union : ∀ candidates, (∀ c ∈ candidates, motive c) → motive (.union candidates))
    (object : ∀ (properties : List (Property Schema)) (additional : Option Schema),
      (∀ p ∈ properties, motive p.schema) → (∀ s ∈ additional, motive s) →
      motive (.object properties additional))
    (reference : ∀ name, motive (.reference name)) (s : Schema) : motive s :=
  -- lists of schemas, of properties, and optional schemas each have a motive of their own
  @Schema.rec motive (fun candidates => ∀ c ∈ candidates, motive c)
    (fun properties => ∀ p ∈ properties, motive p.schema)
    (fun additional => ∀ s ∈ additional, motive s) (fun p => motive p.schema)
    kind literals array (fun candidates ih => union candidates ih)
    (fun properties additional ihp iha => object properties additional ihp iha) reference
    (fun c hc => absurd hc (by simp))
    (fun c rest hc hrest d hd => by
      rcases List.mem_cons.1 hd with rfl | hd
      · exact hc
      · exact hrest d hd)
    (fun p hp => absurd hp (by simp))
    (fun p rest hp hrest q hq => by
      rcases List.mem_cons.1 hq with rfl | hq
      · exact hp
      · exact hrest q hq)
    (fun s hs => absurd hs (by simp))
    (fun s hs t ht => by
      rw [← Option.some.inj ht]
      exact hs)
    (fun _ _ _ hs => hs) s

namespace Registry

/-! ## The schemas in a registry -/

/-- A schema that stands somewhere in a registry. -/
inductive Part (r : Registry) : Schema → Prop where
  | registered {name : String} {s : Schema} (h : r.find? name = some s) : Part r s
  | element {s : Schema} (h : Part r (.array s)) : Part r s
  | candidate {candidates : List Schema} {s : Schema} (h : Part r (.union candidates))
      (hs : s ∈ candidates) : Part r s
  | property {properties : List (Property Schema)} {additional : Option Schema}
      {p : Property Schema} (h : Part r (.object properties additional)) (hp : p ∈ properties) :
      Part r p.schema
  | additional {properties : List (Property Schema)} {s : Schema}
      (h : Part r (.object properties (some s))) : Part r s

/-- References resolve, and no object has a name twice on one side. -/
structure Sound (r : Registry) : Prop where
  resolves {name : String} (h : r.Part (.reference name)) : ∃ s, r.find? name = some s
  wireNames {properties : List (Property Schema)} {additional : Option Schema}
    (h : r.Part (.object properties additional)) : (properties.map Property.wireName).Nodup
  internalNames {properties : List (Property Schema)} {additional : Option Schema}
    (h : r.Part (.object properties additional)) : (properties.map Property.internalName).Nodup

namespace Sound

variable {r : Registry} {properties : List (Property Schema)} {additional : Option Schema}

/-- The names that are looked up are distinct, whichever side they are on. -/
theorem sourceNames (hr : r.Sound) (h : r.Part (.object properties additional))
    (direction : Direction) : (properties.map direction.sourceName).Nodup := by
  cases direction with
  | toInternal => exact hr.wireNames h
  | toWire => exact hr.internalNames h

/-- So are the names that things are stored under. -/
theorem targetNames (hr : r.Sound) (h : r.Part (.object properties additional))
    (direction : Direction) : (properties.map direction.targetName).Nodup := by
  cases direction with
  | toInternal => exact hr.internalNames h
  | toWire => exact hr.wireNames h

end Sound

end Registry

/-! ## No issues -/

namespace Schema

variable {registered : List String} {owner : String}

theorem mem_issuesOfAll {candidates : List Schema} {i : Issue} :
    i ∈ issuesOfAll registered owner candidates ↔
      ∃ c ∈ candidates, i ∈ c.issues registered owner := by
  induction candidates with
  | nil => simp [issuesOfAll]
  | cons c rest ih => rw [issuesOfAll, List.mem_append, ih, List.exists_mem_cons_iff]

/-- What is wrong with the schema of a property is told among the issues of the properties. -/
theorem mem_issuesOfProperties {wire internal : List String} {properties : List (Property Schema)}
    {p : Property Schema} {i : Issue} (hp : p ∈ properties)
    (hi : i ∈ p.schema.issues registered owner) :
    i ∈ issuesOfProperties registered owner wire internal properties := by
  induction properties generalizing wire internal with
  | nil => cases hp
  | cons q rest ih =>
      rw [issuesOfProperties]
      rcases List.mem_cons.1 hp with rfl | hp
      · exact List.mem_append_left _ (List.mem_append_right _ hi)
      · exact List.mem_append_right _ (ih hp)

theorem mem_issues_object {properties : List (Property Schema)} {additional : Option Schema}
    {i : Issue} :
    i ∈ (object properties additional).issues registered owner ↔
      i ∈ issuesOfProperties registered owner [] [] properties ∨
        ∃ s ∈ additional, i ∈ s.issues registered owner := by
  cases additional with
  | none => simp [issues]
  | some extra => simp [issues]

/-- The properties of an object are without issues exactly when their schemas are, and when their
names on either side differ from one another and from those that came before. -/
theorem issuesOfProperties_eq_nil_iff {wire internal : List String}
    {properties : List (Property Schema)} :
    issuesOfProperties registered owner wire internal properties = [] ↔
      (∀ p ∈ properties, p.schema.issues registered owner = []) ∧
      ((properties.map Property.wireName).Nodup ∧ ∀ p ∈ properties, p.wireName ∉ wire) ∧
      ((properties.map Property.internalName).Nodup ∧
        ∀ p ∈ properties, p.internalName ∉ internal) := by
  induction properties generalizing wire internal with
  | nil => simp [issuesOfProperties]
  | cons p rest ih =>
      have hif : ∀ (c : Prop) [Decidable c] (i : Issue),
          ((if c then [i] else []) = []) ↔ ¬ c := by
        intro c _ i
        split <;> simp [*]
      simp only [issuesOfProperties, List.append_eq_nil_iff, hif, ih,
        List.map_cons, List.nodup_cons, List.mem_cons, forall_eq_or_imp, not_or, List.mem_map,
        not_exists, not_and]
      constructor
      -- the names of `p` are among those that come before the rest, so none there repeats them
      · rintro ⟨⟨⟨hw, hi⟩, hs⟩, hrest, ⟨hwd, hwn⟩, hid, hin⟩
        exact ⟨⟨hs, hrest⟩, ⟨⟨fun q hq => (hwn q hq).1, hwd⟩, hw, fun q hq => (hwn q hq).2⟩,
          ⟨⟨fun q hq => (hin q hq).1, hid⟩, hi, fun q hq => (hin q hq).2⟩⟩
      · rintro ⟨⟨hs, hrest⟩, ⟨⟨hwp, hwd⟩, hw, hwn⟩, ⟨hip, hid⟩, hi, hin⟩
        exact ⟨⟨⟨hw, hi⟩, hs⟩, hrest, ⟨hwd, fun q hq => ⟨hwp q hq, hwn q hq⟩⟩, hid,
          fun q hq => ⟨hip q hq, hin q hq⟩⟩

theorem issues_object_eq_nil_iff {properties : List (Property Schema)}
    {additional : Option Schema} :
    (object properties additional).issues registered owner = [] ↔
      issuesOfProperties registered owner [] [] properties = [] ∧
        ∀ s ∈ additional, s.issues registered owner = [] := by
  cases additional with
  | none => simp [issues]
  | some extra => simp [issues, List.append_eq_nil_iff]

end Schema

namespace Registry

variable {r : Registry}

theorem mem_names_iff {name : String} : name ∈ r.names ↔ ∃ s, r.find? name = some s := by
  constructor
  · exact Table.exists_find?_of_mem_keys
  · rintro ⟨s, hs⟩
    exact Table.mem_keys_of_mem (Table.mem_of_find? hs)

/-- What is wrong with a schema that stands in a registry is wrong with the registry. -/
theorem Part.issues_subset {s : Schema} (hs : r.Part s) :
    ∃ owner, s.issues r.names owner ⊆ r.issues := by
  induction hs with
  | @registered name s hfind =>
      exact ⟨name, fun i hi => List.mem_flatMap.2 ⟨(name, s), Table.mem_of_find? hfind, hi⟩⟩
  | element _ ih =>
      obtain ⟨owner, ih⟩ := ih
      exact ⟨owner, fun i hi => ih (by rwa [Schema.issues])⟩
  | candidate _ hs ih =>
      obtain ⟨owner, ih⟩ := ih
      refine ⟨owner, fun i hi => ih ?_⟩
      rw [Schema.issues, Schema.mem_issuesOfAll]
      exact ⟨_, hs, hi⟩
  | property _ hp ih =>
      obtain ⟨owner, ih⟩ := ih
      refine ⟨owner, fun i hi => ih ?_⟩
      exact Schema.mem_issues_object.2 (.inl (Schema.mem_issuesOfProperties hp hi))
  | additional _ ih =>
      obtain ⟨owner, ih⟩ := ih
      exact ⟨owner, fun i hi => ih (Schema.mem_issues_object.2 (.inr ⟨_, rfl, hi⟩))⟩

/-- Whatever stands in a registry without issues has none itself. -/
theorem Part.issues_eq_nil {s : Schema} (h : r.issues = []) (hs : r.Part s) :
    ∃ owner, s.issues r.names owner = [] := by
  obtain ⟨owner, hsubset⟩ := hs.issues_subset
  exact ⟨owner, List.subset_nil.1 (h ▸ hsubset)⟩

/-- Where no reference is reported, every reference resolves. -/
theorem Part.resolves (h : ∀ owner target, Issue.danglingReference owner target ∉ r.issues)
    {name : String} (hs : r.Part (.reference name)) : ∃ s, r.find? name = some s := by
  obtain ⟨owner, hsubset⟩ := hs.issues_subset
  by_contra hnone
  have hissue : Issue.danglingReference owner name ∈
      (Schema.reference name).issues r.names owner := by
    rw [Schema.issues, Schema.danglingIssues, if_neg fun hname => hnone (mem_names_iff.1 hname)]
    exact List.mem_singleton.2 rfl
  exact h owner name (hsubset hissue)

/-- A registry in which nothing is found wrong is sound. -/
theorem sound_of_issues_eq_nil (h : r.issues = []) : r.Sound where
  resolves hpart := hpart.resolves (by simp [h])
  wireNames hpart := by
    obtain ⟨owner, hissues⟩ := hpart.issues_eq_nil h
    rw [Schema.issues_object_eq_nil_iff, Schema.issuesOfProperties_eq_nil_iff] at hissues
    exact hissues.1.2.1.1
  internalNames hpart := by
    obtain ⟨owner, hissues⟩ := hpart.issues_eq_nil h
    rw [Schema.issues_object_eq_nil_iff, Schema.issuesOfProperties_eq_nil_iff] at hissues
    exact hissues.1.2.2.1

end Registry

end Agenda
