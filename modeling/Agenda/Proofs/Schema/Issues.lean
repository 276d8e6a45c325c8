/-
What the check of a registry reports.

The check goes through a schema with two lists of names in hand, those of the properties that came
before in the same object, and reports as it goes. What it finds belongs to single schemas: a
reference that leads nowhere, or an object with a name that came before on the same side. So up to
order the reports are those of the parts of each registered schema, taken one by one, and they can
be counted: one for every reference to a name that is not registered, and one for every occurrence
of a name in an object beyond the first. In particular there are none exactly if the registry is
sound.
-/
import Agenda.Proofs.Schema.Parts
import Mathlib.Algebra.GroupWithZero.Nat
import Mathlib.Data.List.Count

set_option autoImplicit false

namespace Agenda

/-- The name of the registered schema that a report is about. -/
def Issue.owner : Issue → String
  | danglingReference owner _ => owner
  | duplicateWireName owner _ => owner
  | duplicateInternalName owner _ => owner

namespace Schema

variable {registered : List String} {owner : String}

/-! ## What is wrong with a schema itself -/

/-- The name that a schema refers to, if it is a reference. -/
def referred : Schema → List String
  | reference name => [name]
  | _ => []

/-- The wire names of an object in the order of its properties. -/
def wireNames : Schema → List String
  | object properties _ => properties.map Property.wireName
  | _ => []

/-- The internal names of an object in the order of its properties. -/
def internalNames : Schema → List String
  | object properties _ => properties.map Property.internalName
  | _ => []

/-- The names of a list that came before in it, or in another list before it. -/
def repeatsAfter : List String → List String → List String
  | _, [] => []
  | before, name :: rest =>
    (if name ∈ before then [name] else []) ++ repeatsAfter (name :: before) rest

/-- Every occurrence of a name but the first is a repetition. -/
theorem count_repeatsAfter (before names : List String) (name : String) :
    (repeatsAfter before names).count name =
      if name ∈ before then names.count name else names.count name - 1 := by
  induction names generalizing before with
  | nil => simp [repeatsAfter]
  | cons n rest ih =>
      rw [repeatsAfter, List.count_append, ih, List.count_cons]
      by_cases hn : n = name
      · subst hn
        by_cases hbefore : n ∈ before
        · simp [hbefore]
          omega
        · simp [hbefore]
      · have hne : name ≠ n := fun h => hn h.symm
        by_cases hbefore : n ∈ before <;> simp [hn, hne, hbefore]

/-- What is wrong with a schema, leaving aside what stands inside it. -/
def ownIssues (registered : List String) (owner : String) (s : Schema) : List Issue :=
  (s.referred.filter (· ∉ registered)).map (.danglingReference owner) ++
    (repeatsAfter [] s.wireNames).map (.duplicateWireName owner) ++
    (repeatsAfter [] s.internalNames).map (.duplicateInternalName owner)

/-- How often something is wrong with a schema itself: once for a reference to a name that is not
registered, and once for every occurrence of a name in an object beyond the first. -/
def faults (registered : List String) (s : Schema) : Issue → Nat
  | .danglingReference _ target => if target ∈ registered then 0 else s.referred.count target
  | .duplicateWireName _ name => s.wireNames.count name - 1
  | .duplicateInternalName _ name => s.internalNames.count name - 1

/-- Reports that are made about names count as often as the name that they are about. -/
theorem count_map_report {report : String → Issue} {names : List String} {name : String}
    (h : Function.Injective report) : (names.map report).count (report name) = names.count name :=
  List.count_map_of_injective names report h name

/-- Other reports do not count. -/
theorem count_map_eq_zero {report : String → Issue} {names : List String} {i : Issue}
    (h : ∀ name, report name ≠ i) : (names.map report).count i = 0 := by
  rw [List.count_eq_zero, List.mem_map]
  rintro ⟨name, _, hname⟩
  exact h name hname

theorem count_ownIssues (s : Schema) {i : Issue} (hi : i.owner = owner) :
    (s.ownIssues registered owner).count i = s.faults registered i := by
  subst hi
  rw [ownIssues, List.count_append, List.count_append]
  cases i with
  | danglingReference owner target =>
      rw [Issue.owner, count_map_report, count_map_eq_zero, count_map_eq_zero, Nat.add_zero, faults]
      · split
        · rename_i hmem
          rw [List.count_eq_zero, List.mem_filter]
          simp [hmem]
        · rename_i hmem
          exact List.count_filter (by simpa using hmem)
      · simp
      · simp
      · exact fun a b h => by simpa using h
  | duplicateWireName owner name =>
      rw [Issue.owner, count_map_eq_zero, count_map_report, count_map_eq_zero, count_repeatsAfter,
        if_neg List.not_mem_nil, Nat.zero_add, Nat.add_zero, faults]
      · simp
      · exact fun a b h => by simpa using h
      · simp
  | duplicateInternalName owner name =>
      rw [Issue.owner, count_map_eq_zero, count_map_eq_zero, count_map_report, count_repeatsAfter,
        if_neg List.not_mem_nil, Nat.zero_add, faults]
      · exact fun a b h => by simpa using h
      · simp
      · simp

/-! ## What is wrong with a schema and all inside it -/

theorem perm_issuesOfAll {candidates : List Schema}
    (h : ∀ c ∈ candidates,
      (c.issues registered owner).Perm (c.parts.flatMap (ownIssues registered owner))) :
    (issuesOfAll registered owner candidates).Perm
      ((partsOfAll candidates).flatMap (ownIssues registered owner)) := by
  induction candidates with
  | nil => exact .nil
  | cons c rest ih =>
      rw [issuesOfAll, partsOfAll, List.flatMap_append]
      exact (h c List.mem_cons_self).append (ih fun c' hc' => h c' (List.mem_cons_of_mem _ hc'))

/-- The reports about properties are those about their names and those about their schemas. -/
theorem perm_issuesOfProperties (wire internal : List String)
    {properties : List (Property Schema)}
    (h : ∀ p ∈ properties, (p.schema.issues registered owner).Perm
      (p.schema.parts.flatMap (ownIssues registered owner))) :
    (issuesOfProperties registered owner wire internal properties).Perm
      ((repeatsAfter wire (properties.map Property.wireName)).map (.duplicateWireName owner) ++
        (repeatsAfter internal (properties.map Property.internalName)).map
          (.duplicateInternalName owner) ++
        (partsOfProperties properties).flatMap (ownIssues registered owner)) := by
  induction properties generalizing wire internal with
  | nil => exact .nil
  | cons p rest ih =>
      have hp := h p List.mem_cons_self
      have hrest := ih (p.wireName :: wire) (p.internalName :: internal)
        fun q hq => h q (List.mem_cons_of_mem _ hq)
      rw [List.perm_iff_count] at hp hrest ⊢
      intro i
      simp only [issuesOfProperties, partsOfProperties, repeatsAfter, List.map_cons,
        List.map_append, List.flatMap_append, List.count_append, hp i, hrest i]
      rw [apply_ite (List.map _), apply_ite (List.map _)]
      simp only [List.map_cons, List.map_nil]
      omega

theorem perm_issues (registered : List String) (owner : String) (s : Schema) :
    (s.issues registered owner).Perm (s.parts.flatMap (ownIssues registered owner)) := by
  induction s with
  | kind k => exact .nil
  | literals words distinct => exact .nil
  | array element ih => exact ih
  | union candidates ih => exact perm_issuesOfAll ih
  | object properties additional ihp iha =>
      have hproperties := perm_issuesOfProperties [] [] ihp
      cases additional with
      | none =>
          rw [issues, parts, List.flatMap_cons]
          exact hproperties
      | some extra =>
          rw [issues, parts, List.flatMap_cons, List.flatMap_append, ← List.append_assoc]
          exact hproperties.append (iha extra rfl)
  | reference name =>
      rw [issues, danglingIssues, parts, List.flatMap_singleton]
      by_cases hname : name ∈ registered <;>
        simp [ownIssues, referred, wireNames, internalNames, repeatsAfter, hname]

/-- All reports are about the registered schema that is gone through. -/
theorem owner_of_mem_ownIssues {s : Schema} {i : Issue} (h : i ∈ s.ownIssues registered owner) :
    i.owner = owner := by
  simp only [ownIssues, List.mem_append, List.mem_map] at h
  obtain (⟨_, _, rfl⟩ | ⟨_, _, rfl⟩) | ⟨_, _, rfl⟩ := h
  · rfl
  · rfl
  · rfl

theorem mem_issues_iff {s : Schema} {i : Issue} :
    i ∈ s.issues registered owner ↔ ∃ t ∈ s.parts, i ∈ t.ownIssues registered owner := by
  rw [(perm_issues registered owner s).mem_iff, List.mem_flatMap]

theorem repeatsAfter_eq_nil_of_nodup {names : List String} (h : names.Nodup) :
    repeatsAfter [] names = [] := by
  rw [List.eq_nil_iff_forall_not_mem]
  intro name
  rw [← List.count_eq_zero, count_repeatsAfter, if_neg List.not_mem_nil]
  have hle := List.nodup_iff_count_le_one.1 h name
  omega

end Schema

namespace Registry

variable {r : Registry}

/-! ## Registries without reports -/

/-- Nothing is wrong with any schema in a sound registry. -/
theorem Sound.ownIssues_eq_nil (hr : r.Sound) {s : Schema} (hs : r.Part s) (owner : String) :
    s.ownIssues r.names owner = [] := by
  cases s with
  | reference name =>
      have hname : name ∈ r.names := mem_names_iff.2 (hr.resolves hs)
      simp [Schema.ownIssues, Schema.referred, Schema.wireNames, Schema.internalNames,
        Schema.repeatsAfter, hname]
  | object properties additional =>
      have hwire := Schema.repeatsAfter_eq_nil_of_nodup (hr.wireNames hs)
      have hinternal := Schema.repeatsAfter_eq_nil_of_nodup (hr.internalNames hs)
      rw [Schema.ownIssues, Schema.wireNames, Schema.internalNames, hwire, hinternal]
      rfl
  | _ => rfl

/-- The check finds nothing wrong exactly with a sound registry. -/
theorem issues_eq_nil_iff : r.issues = [] ↔ r.Sound := by
  refine ⟨sound_of_issues_eq_nil, fun hr => ?_⟩
  rw [List.eq_nil_iff_forall_not_mem]
  intro i hi
  obtain ⟨p, hp, hi⟩ := List.mem_flatMap.1 hi
  obtain ⟨t, ht, hi⟩ := Schema.mem_issues_iff.1 hi
  have hpart : r.Part p.2 := .registered (Table.find?_of_mem r.distinct hp)
  rw [hr.ownIssues_eq_nil (hpart.of_mem_parts ht)] at hi
  cases hi

/-! ## How often something is reported -/

/-- The schemas that stand in the schema under a name, with repetitions. -/
def partsUnder (r : Registry) (owner : String) : List Schema :=
  (r.find? owner).elim [] Schema.parts

/-- A schema is a part of a registry exactly if it stands under one of its names. -/
theorem part_iff_exists_mem_partsUnder {s : Schema} :
    r.Part s ↔ ∃ owner, s ∈ r.partsUnder owner := by
  constructor
  · intro hs
    obtain ⟨p, hp, hs⟩ := List.mem_flatMap.1 hs.mem_parts
    refine ⟨p.1, ?_⟩
    rwa [partsUnder, find?, Table.find?_of_mem r.distinct hp]
  · rintro ⟨owner, hs⟩
    cases hfind : r.find? owner with
    | none =>
        rw [partsUnder, hfind] at hs
        cases hs
    | some t =>
        rw [partsUnder, hfind] at hs
        exact (Part.registered hfind).of_mem_parts hs

/-- A report is made as often as the parts of the schema that it is about give reason to. -/
theorem count_issues (r : Registry) (i : Issue) :
    r.issues.count i = ((r.partsUnder i.owner).map fun s => s.faults r.names i).sum := by
  have howner : ∀ p ∈ r.schemas, i ∈ p.2.issues r.names p.1 → p.1 = i.owner := by
    intro p _ hi
    obtain ⟨t, _, hi⟩ := Schema.mem_issues_iff.1 hi
    exact (Schema.owner_of_mem_ownIssues hi).symm
  rw [issues, Table.count_flatMap r.distinct howner, partsUnder, find?]
  cases r.schemas.find? i.owner with
  | none => rfl
  | some s =>
      rw [Option.elim_some, Option.elim_some, (Schema.perm_issues r.names i.owner s).count_eq,
        List.count_flatMap]
      refine congrArg List.sum (List.map_congr_left fun t _ => ?_)
      exact Schema.count_ownIssues t rfl

/-- The check of a registry finds nothing wrong exactly if every reference in it resolves and no
object in it has a name twice on one side; and in any case it makes every report as often as there
is reason to, in the schema under the name that it gives. -/
theorem issues_exact (r : Registry) :
    (r.issues = [] ↔ r.Sound) ∧
      ∀ i : Issue,
        r.issues.count i = ((r.partsUnder i.owner).map fun s => s.faults r.names i).sum :=
  ⟨issues_eq_nil_iff, count_issues r⟩

/-- A reference that leads nowhere, and a name that comes twice on either side. -/
example : (ofList [("Thing", .object [⟨"a", "x", .reference "Missing"⟩, ⟨"a", "y", .kind .string⟩,
    ⟨"b", "y", .kind .string⟩] none)]).issues = [.danglingReference "Thing" "Missing",
      .duplicateWireName "Thing" "a", .duplicateInternalName "Thing" "y"] := by decide +kernel

end Registry

end Agenda
