/-
Two facts about every conversion: it keeps the shape of a value, and over a sound registry it comes
to a result or a rejection.

The shape of a value is its kind as a union tells candidates apart by it: absence, null, and so on,
where a string and an instant are one shape, since conversion turns the one into the other. In
particular what is present stays present and what is absent stays absent.
-/
import Agenda.Proofs.Conversion.Object
import Agenda.Proofs.Time.Spelling

set_option autoImplicit false

namespace Agenda

/-- The kinds of value that a schema can tell apart. -/
inductive Shape where
  | absent
  | null
  | bool
  | number
  /-- A string or an instant. -/
  | text
  | array
  | object
deriving DecidableEq

/-- The shape of a value, or of its absence. -/
def Data.shape : Option Data → Shape
  | none => .absent
  | some .null => .null
  | some (.bool _) => .bool
  | some (.number _) => .number
  | some (.string _) => .text
  | some (.atom _) => .text
  | some (.array _) => .array
  | some (.object _) => .object

namespace Engine

variable {r : Registry} {d : Direction} {owner : Option String} {x out : Option Data} {site : Site}
  {properties : List (Property Schema)} {additional : Option Schema}

/-! ## Shapes -/

theorem exists_object_of_eq_ok
    (h : convertUnder r d owner x site (.object properties additional) = .ok out) :
    ∃ members all, x = some (.object members) ∧ out = some (.object all) := by
  by_cases hx : ∃ members, x = some (.object members)
  · obtain ⟨members, rfl⟩ := hx
    rw [convertUnder_object] at h
    obtain ⟨first, _, h⟩ := Result.bind_eq_ok_iff.1 h
    obtain ⟨all, _, h⟩ := Result.bind_eq_ok_iff.1 h
    exact ⟨members, all, rfl, (Except.ok.inj h).symm⟩
  · rw [not_exists] at hx
    rw [convertUnder_object_of_ne properties additional hx] at h
    cases h

theorem shape_placeInstant (t : Instant) : Data.shape (some (placeInstant d t)) = .text := by
  cases d <;> rfl

theorem shape_of_instantOf? {t : Instant} (h : instantOf? x = some t) : Data.shape x = .text := by
  rcases x with _ | (_ | _ | _ | _ | _ | _ | _)
  case some.string => rfl
  case some.atom => rfl
  all_goals cases h

/-- The engine cuts every instant that it meets. -/
theorem truncate_of_instantOf? {t : Instant} (h : instantOf? x = some t) : t.truncate = t := by
  rcases x with _ | (_ | _ | _ | text | u | _ | _)
  case some.string =>
      obtain ⟨u, -, rfl⟩ := Option.map_eq_some_iff.1 h
      exact u.truncate_truncate
  case some.atom =>
      obtain rfl := Option.some.inj h
      exact u.truncate_truncate
  all_goals cases h

/-- Conversion keeps the shape of a value. -/
theorem shape_eq (hr : r.Acyclic) {s : Schema}
    (h : convertUnder r d owner x site s = .ok out) : Data.shape out = Data.shape x := by
  induction s using Registry.Acyclic.induction hr generalizing owner with
  | kind k =>
      by_cases hk : k = .timestamp
      · subst hk
        -- an instant and its text are of one shape, so it does not matter which replaces which
        rcases convertUnder_timestamp_eq_ok_iff.1 h with ⟨rfl, rfl⟩ | ⟨t, ht, rfl⟩
        · rfl
        · rw [shape_placeInstant, shape_of_instantOf? ht]
      · rw [((convertUnder_kind_eq_ok_iff hk).1 h).2]
  | literals words distinct =>
      obtain ⟨_, _, _, rfl⟩ := convertUnder_literals_eq_ok_iff.1 h
      rfl
  | array element =>
      obtain ⟨items, outs, rfl, rfl, _⟩ := convertUnder_array_eq_ok_iff.1 h
      rfl
  | union candidates ih =>
      obtain ⟨before, c, after, hsplit, _, hc⟩ := convertUnder_union_eq_ok_iff.1 h
      rw [convert_eq_convertUnder] at hc
      exact ih c (by simp [hsplit]) hc
  | object properties additional =>
      obtain ⟨members, all, rfl, rfl⟩ := exists_object_of_eq_ok h
      rfl
  | reference name ih =>
      cases hname : r.find? name with
      | none =>
          rw [convertUnder_reference_of_none hname] at h
          cases h
      | some s =>
          rw [convertUnder_reference hr hname] at h
          exact ih s hname h

/-- What is present stays present. -/
theorem exists_some_of_eq_ok (hr : r.Acyclic) {s : Schema} {v : Data}
    (h : convertUnder r d owner (some v) site s = .ok out) : ∃ w, out = some w := by
  have hshape := shape_eq hr h
  cases out with
  | none => cases v <;> cases hshape
  | some w => exact ⟨w, rfl⟩

/-- What is absent stays absent. -/
theorem eq_none_of_eq_ok (hr : r.Acyclic) {s : Schema}
    (h : convertUnder r d owner none site s = .ok out) : out = none := by
  have hshape := shape_eq hr h
  cases out with
  | none => rfl
  | some w => cases w <;> cases hshape

/-- A run is a conversion under a name, and makes something. -/
theorem run_eq_ok_iff (hr : r.Acyclic) {name : String} {v w : Data} :
    run r d name v = .ok w ↔
      convertUnder r d none (some v) .root (.reference name) = .ok (some w) := by
  rw [run, convert_eq_convertUnder, Result.bind_eq_ok_iff]
  constructor
  · rintro ⟨out, hout, hw⟩
    obtain ⟨u, rfl⟩ := exists_some_of_eq_ok hr hout
    obtain rfl : u = w := Except.ok.inj hw
    exact hout
  · exact fun h => ⟨some w, h, rfl⟩

/-- An array is converted element by element, and no element is lost. -/
theorem convertUnder_array_eq_ok_iff_forall₂ (hr : r.Acyclic) {element : Schema} :
    convertUnder r d owner x site (.array element) = .ok out ↔
      ∃ items outs, x = some (.array items) ∧ out = some (.array outs) ∧
        List.Forall₂ (fun v w => convert r d (some v) site element = .ok (some w)) items outs := by
  have hitem : ∀ v w, (∃ o, convert r d (some v) site element = .ok o ∧ w = o.getD .null) ↔
      convert r d (some v) site element = .ok (some w) := by
    intro v w
    constructor
    · rintro ⟨o, ho, rfl⟩
      obtain ⟨u, rfl⟩ := exists_some_of_eq_ok hr (convert_eq_convertUnder _ _ _ ▸ ho)
      exact ho
    · exact fun h => ⟨some w, h, rfl⟩
  rw [convertUnder_array_eq_ok_iff]
  simp only [hitem]

/-! ## Shapes that a schema accepts

What a schema accepts is bounded by what can be read off it, which is how a condition on the shapes
is checked for a given registry. -/

/-- Some value of a shape is accepted by a schema, in one of the directions. -/
def Accepts (r : Registry) (s : Schema) (shape : Shape) : Prop :=
  ∃ d x site out, Data.shape x = shape ∧ convert r d x site s = .ok out

/-- The shapes that a kind may accept. -/
def kindShapes : Kind → List Shape
  | .string => [.text]
  | .number => [.number]
  | .boolean => [.bool]
  | .timestamp => [.null, .text]
  | .any => [.absent, .null, .bool, .number, .text, .array, .object]
  | .null => [.null]
  | .never => []
  | .absent => [.absent]

/-- A shape that a schema may accept, as far as the schema itself says. -/
inductive MayAccept (r : Registry) : Schema → Shape → Prop where
  | kind {k : Kind} {shape : Shape} (h : shape ∈ kindShapes k) : MayAccept r (.kind k) shape
  | literals {words : List String} {distinct : words.Nodup} :
      MayAccept r (.literals words distinct) .text
  | array {element : Schema} : MayAccept r (.array element) .array
  | object {properties : List (Property Schema)} {additional : Option Schema} :
      MayAccept r (.object properties additional) .object
  | candidate {candidates : List Schema} {c : Schema} {shape : Shape} (hc : c ∈ candidates)
      (h : MayAccept r c shape) : MayAccept r (.union candidates) shape
  | reference {name : String} {s : Schema} {shape : Shape} (hname : r.find? name = some s)
      (h : MayAccept r s shape) : MayAccept r (.reference name) shape

theorem shape_mem_kindShapes {k : Kind} (h : admits k x = true) : Data.shape x ∈ kindShapes k := by
  rcases x with _ | (_ | _ | _ | _ | _ | _ | _) <;> cases k <;>
    first
    | (cases h; done)
    | simp [Data.shape, kindShapes]

theorem mayAccept_of_accepts (hr : r.Acyclic) {s : Schema} {shape : Shape}
    (h : Accepts r s shape) : MayAccept r s shape := by
  obtain ⟨d, x, site, out, rfl, hok⟩ := h
  rw [convert_eq_convertUnder] at hok
  revert hok
  generalize (none : Option String) = owner
  intro hok
  -- a reference changes the owner, so the induction is for every owner
  induction s using Registry.Acyclic.induction hr generalizing owner with
  | kind k =>
      by_cases hk : k = .timestamp
      · subst hk
        rcases convertUnder_timestamp_eq_ok_iff.1 hok with ⟨rfl, _⟩ | ⟨t, ht, _⟩
        · exact .kind (by decide)
        · rw [shape_of_instantOf? ht]
          exact .kind (by decide)
      · exact .kind (shape_mem_kindShapes ((convertUnder_kind_eq_ok_iff hk).1 hok).1)
  | literals words distinct =>
      obtain ⟨_, _, rfl, _⟩ := convertUnder_literals_eq_ok_iff.1 hok
      exact .literals
  | array element =>
      obtain ⟨_, _, rfl, _⟩ := convertUnder_array_eq_ok_iff.1 hok
      exact .array
  | union candidates ih =>
      obtain ⟨before, c, after, rfl, _, hc⟩ := convertUnder_union_eq_ok_iff.1 hok
      rw [convert_eq_convertUnder] at hc
      have hmem : c ∈ before ++ c :: after := List.mem_append_right _ List.mem_cons_self
      exact .candidate hmem (ih c hmem none hc)
  | object properties additional =>
      obtain ⟨_, _, rfl, _⟩ := exists_object_of_eq_ok hok
      exact .object
  | reference name ih =>
      cases hname : r.find? name with
      | none =>
          rw [convertUnder_reference_of_none hname] at hok
          cases hok
      | some s =>
          rw [convertUnder_reference hr hname] at hok
          exact .reference hname (ih s hname (some name) hok)

/-! ## No faults -/

section

variable {P : ConversionError → Prop}

theorem failsOnly_declared {members start : Table Data} {names : Table (Renamed properties.length)}
    (h : ∀ entry ∈ names, FailsOnly P (convert r d (Table.find? members entry.1)
      ⟨some entry.1, owner⟩ properties[entry.2.index].schema)) :
    FailsOnly P (declared properties owner (convertAbsent r d) (convertMembers r d members) names
      start) := by
  induction names generalizing start with
  | nil => exact .ok _
  | cons entry rest ih =>
      obtain ⟨source, renamed⟩ := entry
      rw [declared, attempt_eq_convert]
      refine FailsOnly.bind (h (source, renamed) List.mem_cons_self) fun v => ?_
      exact ih fun entry hentry => h entry (List.mem_cons_of_mem _ hentry)

/-- The rejection of a member that no schema takes. -/
def noProperty (owner : Option String) (m : String × Data) : Rejection :=
  ⟨"no property with this name", some m.2, ⟨some m.1, owner⟩⟩

theorem failsOnly_undeclared {members start : Table Data} {isDeclared : String → Bool}
    (hnone : additional = none → ∀ m ∈ members, isDeclared m.1 = false →
      P (.rejected (noProperty owner m)))
    (h : ∀ extra ∈ additional, ∀ m ∈ members, isDeclared m.1 = false →
      FailsOnly P (convert r d (some m.2) ⟨some m.1, owner⟩ extra)) :
    FailsOnly P
      (undeclared additional owner isDeclared members (convertMembers r d members) start) := by
  induction members generalizing start with
  | nil =>
      cases additional <;> exact .ok _
  | cons m rest ih =>
      obtain ⟨key, v⟩ := m
      have hrest : ∀ start, FailsOnly P
          (undeclared additional owner isDeclared rest (convertMembers r d rest) start) := by
        intro start
        apply ih
        · exact fun hadditional m hm => hnone hadditional m (List.mem_cons_of_mem _ hm)
        · exact fun extra hextra m hm => h extra hextra m (List.mem_cons_of_mem _ hm)
      -- a surplus member is rejected if no schema takes it, and converted if one does
      cases additional with
      | none =>
          rw [convertMembers, undeclared]
          split
          · exact hrest start
          · rename_i hkey
            exact .error (hnone rfl (key, v) List.mem_cons_self (Bool.not_eq_true _ ▸ hkey))
      | some extra =>
          rw [convertMembers, undeclared]
          split
          · exact hrest start
          · rename_i hkey
            refine FailsOnly.bind ?_ fun w => hrest _
            exact h extra rfl (key, v) List.mem_cons_self (Bool.not_eq_true _ ▸ hkey)

/-- A declared key leads to a property that is looked up by it. -/
theorem sourceName_of_mem_renaming {entry : String × Renamed properties.length}
    (h : entry ∈ Renaming properties d) : d.sourceName properties[entry.2.index] = entry.1 := by
  obtain ⟨i, _, rfl⟩ := List.mem_map.1 (Table.mem_of_mem_ofList h)
  rfl

/-- What a renaming does not find is surplus. -/
theorem mem_surplus_of_isSome_eq_false {members : Table Data} {m : String × Data}
    (hm : m ∈ members) (h : (Table.find? (Renaming properties d) m.1).isSome = false) :
    m ∈ surplus d properties members := by
  have hkey : m.1 ∉ properties.map d.sourceName := by
    rw [← Bool.not_eq_true, Table.isSome_find?_iff, Renaming, Table.mem_keys_ofList] at h
    rwa [← keys_entries]
  exact List.mem_filter.2 ⟨hm, decide_eq_true hkey⟩

/-- An object fails as a whole, or as one of its members does. -/
theorem failsOnly_object (hrefuses : Refuses P x site)
    (hdeclared : ∀ members, x = some (.object members) → ∀ p ∈ properties,
      FailsOnly P (convertProperty r d owner members p))
    (hnone : ∀ members, x = some (.object members) → additional = none →
      ∀ m ∈ surplus d properties members, P (.rejected (noProperty owner m)))
    (hsurplus : ∀ members, x = some (.object members) → ∀ extra ∈ additional,
      ∀ m ∈ surplus d properties members,
        FailsOnly P (convert r d (some m.2) ⟨some m.1, owner⟩ extra)) :
    FailsOnly P (convertUnder r d owner x site (.object properties additional)) := by
  by_cases hx : ∃ members, x = some (.object members)
  · obtain ⟨members, rfl⟩ := hx
    rw [convertUnder_object]
    refine FailsOnly.bind (failsOnly_declared ?_) fun first => ?_
    · intro entry hentry
      have hproperty := hdeclared members rfl properties[entry.2.index] (List.getElem_mem _)
      rwa [convertProperty, sourceName_of_mem_renaming hentry] at hproperty
    · refine FailsOnly.bind (failsOnly_undeclared ?_ ?_) fun all => .ok _
      · intro hadditional m hm hkey
        exact hnone members rfl hadditional m (mem_surplus_of_isSome_eq_false hm hkey)
      · intro extra hextra m hm hkey
        exact hsurplus members rfl extra hextra m (mem_surplus_of_isSome_eq_false hm hkey)
  · rw [not_exists] at hx
    rw [convertUnder_object_of_ne properties additional hx]
    exact hrefuses.reject _

/-- Over an acyclic registry a conversion under one of its schemas fails by rejecting or for want of
a schema that is referred to somewhere in the registry. -/
theorem failsOnly (hacyclic : r.Acyclic) (hP : ∀ rejection, P (.rejected rejection))
    (hmissing : ∀ name, r.Part (.reference name) → r.find? name = none → P (.schemaNotFound name))
    (x : Option Data) {s : Schema} (hs : r.Part s) (owner : Option String) (site : Site) :
    FailsOnly P (convertUnder r d owner x site s) := by
  induction x using Data.parts_induction generalizing s owner site with
  | step x ihx =>
      induction s using Registry.Acyclic.induction hacyclic generalizing owner with
      | kind k => exact failsOnly_kind (fun _ => hP _) k
      | literals words distinct => exact failsOnly_literals (fun _ => hP _) words distinct
      | array element =>
          refine failsOnly_array (fun _ => hP _) fun items hitems v hv => ?_
          subst hitems
          rw [convert_eq_convertUnder]
          exact ihx _ (Data.mem_parts_of_mem_items hv) hs.element none site
      | union candidates ih =>
          refine failsOnly_union (fun _ => hP _) fun c hc => ?_
          rw [convert_eq_convertUnder]
          exact (ih c hc (hs.candidate hc) none).imp fun e he _ => he
      | object properties additional =>
          refine failsOnly_object (fun _ => hP _) ?_ (fun _ _ _ _ _ => hP _) ?_
          · rintro members rfl p hp
            rw [convertProperty, convert_eq_convertUnder]
            exact ihx _ (Data.find?_mem_parts members _) (hs.property hp) none _
          · rintro members rfl extra hextra m hm
            cases hextra
            rw [convert_eq_convertUnder]
            exact ihx _ (Data.mem_parts_of_mem_members (List.mem_of_mem_filter hm)) hs.additional
              none _
      | reference name ih =>
          cases hname : r.find? name with
          | none =>
              rw [convertUnder_reference_of_none hname]
              exact .error (hmissing name hs hname)
          | some s =>
              rw [convertUnder_reference hacyclic hname]
              exact ih s hname (.registered hname) (some name)

end

/-- Over a sound and acyclic registry a conversion comes to a result or a rejection. -/
theorem settles (hacyclic : r.Acyclic) (hsound : r.Sound) (x : Option Data) {s : Schema}
    (hs : r.Part s) (owner : Option String) (site : Site) :
    Settles (convertUnder r d owner x site s) := by
  refine settles_iff_failsOnly.2 (failsOnly hacyclic (fun rejection => ⟨rejection, rfl⟩) ?_ x hs
    owner site)
  intro name hname hnone
  obtain ⟨s, hs⟩ := hsound.resolves hname
  exact absurd (hs.symm.trans hnone) (by simp)

end Engine

end Agenda
