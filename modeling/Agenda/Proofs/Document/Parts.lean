/-
What a reader reads of a value, part by part.

The parts of a value are listed in the order in which they are read: the elements of a list one
after the other, the members of an object in their own order, each with what is expected of it. A
value that does not fit is blamed on the first part that does not fit; only if all of them fit is
it the value itself that is at fault. So the order in which the fields of a record are described
plays no part in what is reported of an object.
-/
import Agenda.Proofs.Conversion.Places
import Agenda.Proofs.Document.Path

set_option autoImplicit false

namespace Agenda

open Result

/-! ## What is expected of a value -/

/-- What is expected at a place: a value of some form, or that or null. A field that may be missing
expects the same as one that may be null; whether it is there is the business of the record. -/
inductive Expected : Type 1 where
  | value {α : Type} (form : Form α)
  | orNull {α : Type} (form : Form α)

/-- Why a value is not what is expected. -/
def Expected.failure? : Expected → Data → Option Mismatch
  | value form, d => Result.failure? (form.read d)
  | orNull form, d => Result.failure? (Form.orNull form.read d)

/-- What is expected under the name of each field of a record. -/
def Fields.expected {ρ : Type} : Fields ρ → List (String × Expected)
  | nil => []
  | required name form rest => (name, .value form) :: rest.expected
  | nullable name form rest => (name, .orNull form) :: rest.expected
  | omittable name form rest => (name, .orNull form) :: rest.expected

/-! ## Parts -/

/-- A part of a value: the step that leads to it, what is expected there, and what stands there. A
form makes parts of a value without reading it. -/
structure Part : Type 1 where
  step : Step
  expected : Expected
  value : Data

namespace Part

/-- Why a part does not fit, as the whole value reports it. -/
def failure? (p : Part) : Option Mismatch :=
  (p.expected.failure? p.value).map fun m => { m with path := p.step :: m.path }

/-- The elements of an array, counted from `i`, as far as something is expected of them. -/
def elements : Nat → List Expected → List Data → List Part
  | i, e :: es, d :: ds => ⟨.index i, e, d⟩ :: elements (i + 1) es ds
  | _, _, _ => []

theorem elements_nil (i : Nat) (es : List Expected) : elements i es [] = [] := by
  cases es <;> rfl

/-- The members of an object that are fields of a record. -/
def members : List (String × Expected) → List (String × Data) → List Part
  | _, [] => []
  | fields, (k, d) :: rest =>
    match fields.find? fun f => f.1 = k with
    | some f => ⟨.key k, f.2, d⟩ :: members (fields.filter fun f => f.1 ≠ k) rest
    | none => members fields rest

end Part

/-- The parts of a value in the order in which a form reads them. For an object this is the order of
its members, and for an array in its place that of the fields. -/
def Form.parts {α : Type} : Form α → Data → List Part
  | .list item, .array ds => Part.elements 0 (ds.map fun _ => .value item) ds
  | .record _ fields _ _, .object members => Part.members fields.expected members
  | .record _ fields _ _, .array ds => Part.elements 0 (fields.expected.map Prod.snd) ds
  | _, _ => []

/-- The parts of a value in the order in which they are read. There are none of null. -/
def Expected.parts : Expected → Data → List Part
  | value form, d => form.parts d
  | orNull form, d => form.parts d

/-! ## The first part that does not fit -/

/-- A failure is that of the first part that does not fit, or else one of the value itself. All that
is proved about mismatches comes from this relation, level by level. -/
def Blames (parts : List Part) (failure : Option Mismatch) : Prop :=
  ∃ own : Option Misfit,
    failure = (parts.findSome? Part.failure?).or (own.map fun misfit => ⟨[], misfit⟩)

section

variable {parts : List Part} {failure : Option Mismatch} {p : Part}

/-- A failure of the value itself has no step in its path. -/
theorem blames_own (h : ∀ m, failure = some m → m.path = []) : Blames [] failure := by
  cases failure with
  | none => exact ⟨none, rfl⟩
  | some m =>
      obtain ⟨path, misfit⟩ := m
      obtain rfl : path = [] := h _ rfl
      exact ⟨some misfit, rfl⟩

theorem blames_none : Blames [] none := ⟨none, rfl⟩

theorem blames_cons_of_some {m : Mismatch} (h : p.failure? = some m) :
    Blames (p :: parts) (some m) :=
  ⟨none, by rw [List.findSome?_cons_of_isSome (by rw [h]; rfl), h]; rfl⟩

theorem blames_cons_of_none (h : p.failure? = none) (hrest : Blames parts failure) :
    Blames (p :: parts) failure := by
  obtain ⟨own, hown⟩ := hrest
  refine ⟨own, ?_⟩
  rw [hown, List.findSome?_cons_of_isNone (by rw [h]; rfl)]

end

/-! ## The elements of an array -/

section

variable {α : Type} {d : Data}

theorem failure?_under (step : Step) (x : Except Mismatch α) :
    failure? (Form.under step x) =
      (failure? x).map fun m => { m with path := step :: m.path } := failure?_mapError _ x

/-- Elements are read in their order, and the first that does not fit ends the reading. -/
theorem blames_listItems (item : Form α) (i : Nat) (ds : List Data) :
    Blames (Part.elements i (ds.map fun _ => .value item) ds)
      (failure? (Form.readItems item.read i ds)) := by
  induction ds generalizing i with
  | nil => exact blames_none
  | cons d ds ih =>
      have hfailure : Part.failure? ⟨.index i, .value item, d⟩ =
          failure? (Form.under (.index i) (item.read d)) := (failure?_under _ _).symm
      rw [List.map_cons, Part.elements, Form.readItems]
      cases hread : Form.under (.index i) (item.read d) with
      | error m => exact blames_cons_of_some (by rw [hfailure, hread]; rfl)
      | ok a =>
          refine blames_cons_of_none (by rw [hfailure, hread]; rfl) ?_
          rw [ok_bind]
          -- what the rest is read as makes no difference
          have hrest := ih (i + 1)
          cases hmore : Form.readItems item.read (i + 1) ds with
          | error m => rwa [hmore] at hrest
          | ok as => rwa [hmore] at hrest

/-- A field that is read from the next element. -/
theorem blames_nextItem {β : Type} {es : List Expected} {e : Expected}
    {read : Data → Except Mismatch α} {absent : Except Mismatch α} {i : Nat} {ds : List Data}
    {rest : α × List Data → Except Mismatch β}
    (he : ∀ d, e.failure? d = failure? (read d))
    (habsent : ∀ m, failure? absent = some m → m.path = [])
    (hrest : ∀ a ds, Blames (Part.elements (i + 1) es ds) (failure? (rest (a, ds)))) :
    Blames (Part.elements i (e :: es) ds)
      (failure? (Form.nextItem read absent i ds >>= rest)) := by
  cases ds with
  | nil =>
      cases absent with
      | error m => exact blames_own fun m' hm => habsent m' hm
      | ok a =>
          have hmore := hrest a []
          rw [Part.elements_nil] at hmore ⊢
          exact hmore
  | cons d ds =>
      have hfailure : Part.failure? ⟨.index i, e, d⟩ =
          failure? (Form.under (.index i) (read d)) := by
        rw [failure?_under, ← he]
        rfl
      rw [Part.elements, Form.nextItem]
      cases hread : Form.under (.index i) (read d) with
      | error m => exact blames_cons_of_some (by rw [hfailure, hread]; rfl)
      | ok a => exact blames_cons_of_none (by rw [hfailure, hread]; rfl) (hrest a ds)

end

theorem failure?_tooShort {α : Type} {record : String} {size i : Nat} {m : Mismatch}
    (h : failure? (Fields.tooShort record size i : Except Mismatch α) = some m) : m.path = [] := by
  cases h
  rfl

/-- The fields of a record are read from the elements of an array in their order. If there are too
few elements, that is a failure of the array. -/
theorem Fields.blames_readItems {ρ β : Type} (fields : Fields ρ) (record : String) (size i : Nat)
    (ds : List Data) {rest : ρ × List Data → Except Mismatch β}
    (hrest : ∀ r ds m, failure? (rest (r, ds)) = some m → m.path = []) :
    Blames (Part.elements i (fields.expected.map Prod.snd) ds)
      (failure? (fields.readItems record size i ds >>= rest)) :=
  match ρ, fields, rest, hrest with
  | _, .nil, _, hrest => by
      have hnone : Part.elements i ([] : List Expected) ds = [] := rfl
      rw [Fields.expected, List.map_nil, hnone]
      exact blames_own fun m hm => hrest () ds m hm
  | _, .required _ form fields, _, hrest => by
      rw [Fields.expected, Fields.readItems, bind_assoc]
      refine blames_nextItem (fun _ => rfl) (fun _ => failure?_tooShort) fun a ds => ?_
      rw [bind_assoc]
      exact fields.blames_readItems record size (i + 1) ds fun r ds => hrest (a, r) ds
  | _, .nullable _ form fields, _, hrest => by
      rw [Fields.expected, Fields.readItems, bind_assoc]
      refine blames_nextItem (fun _ => rfl) (fun _ => failure?_tooShort) fun a ds => ?_
      rw [bind_assoc]
      exact fields.blames_readItems record size (i + 1) ds fun r ds => hrest (a, r) ds
  | _, .omittable _ form fields, _, hrest => by
      rw [Fields.expected, Fields.readItems, bind_assoc]
      refine blames_nextItem (fun _ => rfl) (fun _ hm => by cases hm) fun a ds => ?_
      rw [bind_assoc]
      exact fields.blames_readItems record size (i + 1) ds fun r ds => hrest (a, r) ds

/-! ## The members of an object -/

/-- The one of two failures that stands first. Fields are read one by one, but the failure that is
told is that of the earliest member. -/
def earlier : Option (Nat × Mismatch) → Option (Nat × Mismatch) → Option (Nat × Mismatch)
  | some e, some f => some (if f.1 < e.1 then f else e)
  | some e, none => some e
  | none, f => f

/-- The failure of a field among the members of an object. A value that is missing is missed after
all of them. -/
def fieldFailure? (members : List (String × Data)) (field : String × Expected) :
    Option (Nat × Mismatch) :=
  match Form.position? members field.1, field.2 with
  | some (i, d), e => (Part.failure? ⟨.key field.1, e, d⟩).map fun m => (i, m)
  | none, .value _ => some (members.length, ⟨[], .missingField field.1⟩)
  | none, .orNull _ => none

theorem failure?_both {α β : Type} (x : Form.Placed α) (y : Form.Placed β) :
    failure? (Form.both x y) = earlier (failure? x) (failure? y) := by
  cases x with
  | error e =>
      cases y with
      | error f => rfl
      | ok b => rfl
  | ok a =>
      cases y with
      | error f => rfl
      | ok b => rfl

/-- The failure of a field is that of the part that stands under its name, with the place of the
member beside it. A field without a member fails behind all of them. -/
theorem failure?_placed {α : Type} {members : List (String × Data)} {name : String} {e : Expected}
    {read : Data → Except Mismatch α} {absent : Except Mismatch α}
    (he : ∀ d, e.failure? d = failure? (read d))
    (habsent : Form.position? members name = none → fieldFailure? members (name, e) =
      (failure? absent).map fun m => (members.length, m)) :
    failure? (Form.placed members name read absent) = fieldFailure? members (name, e) := by
  rw [Form.placed]
  cases hposition : Form.position? members name with
  | none =>
      rw [habsent hposition]
      exact failure?_mapError _ _
  | some p =>
      simp only [failure?_mapError, failure?_under, ← he, fieldFailure?, hposition, Part.failure?]

/-- The fields of a record fail as the first of them does, in the order of the members. -/
theorem Fields.failure?_readMembers {ρ : Type} (fields : Fields ρ)
    (members : List (String × Data)) : failure? (fields.readMembers members) =
      (fields.expected.map (fieldFailure? members)).foldr earlier none :=
  match fields with
  | .nil => rfl
  | .required name form fields => by
      rw [Fields.readMembers, failure?_both, fields.failure?_readMembers members,
        failure?_placed (e := .value form) (fun _ => rfl)
          (fun h => by simp only [fieldFailure?, h]; rfl)]
      rfl
  | .nullable name form fields => by
      rw [Fields.readMembers, failure?_both, fields.failure?_readMembers members,
        failure?_placed (e := .orNull form) (fun _ => rfl)
          (fun h => by simp only [fieldFailure?, h]; rfl)]
      rfl
  | .omittable name form fields => by
      rw [Fields.readMembers, failure?_both, fields.failure?_readMembers members,
        failure?_placed (e := .orNull form) (fun _ => rfl)
          (fun h => by simp only [fieldFailure?, h]; rfl)]
      rfl

/-- A failure, seen from one member further ahead. -/
def later (f : Nat × Mismatch) : Nat × Mismatch := (f.1 + 1, f.2)

theorem earlier_first (m : Mismatch) (x : Option (Nat × Mismatch)) :
    earlier (some (0, m)) (x.map later) = some (0, m) ∧
      earlier (x.map later) (some (0, m)) = some (0, m) := by
  cases x with
  | none => exact ⟨rfl, rfl⟩
  | some e => simp [earlier, later]

theorem earlier_map_later (x y : Option (Nat × Mismatch)) :
    earlier (x.map later) (y.map later) = (earlier x y).map later := by
  cases x with
  | none => rfl
  | some e =>
      cases y with
      | none => rfl
      | some f =>
          simp only [earlier, Option.map_some, later, Nat.add_lt_add_iff_right]
          split <;> rfl

theorem eq_or_eq_of_earlier {x y : Option (Nat × Mismatch)} {f : Nat × Mismatch}
    (h : earlier x y = some f) : x = some f ∨ y = some f := by
  cases x with
  | none => exact .inr h
  | some a =>
      cases y with
      | none => exact .inl h
      | some b =>
          rw [earlier] at h
          split at h
          · exact .inr h
          · exact .inl h

section

variable {fields : List (String × Expected)} {members : List (String × Data)} {k : String}
  {d : Data} {field : String × Expected}

/-- The failure of the field that stands under the key of a member. -/
def memberFailure? (fields : List (String × Expected)) (k : String) (d : Data) : Option Mismatch :=
  (fields.find? fun f => f.1 = k).bind fun f => Part.failure? ⟨.key k, f.2, d⟩

theorem fieldFailure?_cons_self (h : field.1 = k) :
    fieldFailure? ((k, d) :: members) field =
      (Part.failure? ⟨.key k, field.2, d⟩).map fun m => (0, m) := by
  subst h
  have hposition : Form.position? ((field.1, d) :: members) field.1 = some (0, d) := by
    rw [Form.position?, if_pos rfl]
  simp only [fieldFailure?, hposition]

theorem fieldFailure?_cons_of_ne (h : field.1 ≠ k) :
    fieldFailure? ((k, d) :: members) field = (fieldFailure? members field).map later := by
  have hposition : Form.position? ((k, d) :: members) field.1 =
      (Form.position? members field.1).map fun p => (p.1 + 1, p.2) := by
    rw [Form.position?, if_neg (Ne.symm h)]
  obtain ⟨name, e⟩ := field
  simp only [fieldFailure?, hposition]
  cases Form.position? members name with
  | some p =>
      simp only [Option.map_some, Option.map_map]
      rfl
  | none => cases e <;> rfl

theorem memberFailure?_cons_self (h : field.1 = k) :
    memberFailure? (field :: fields) k d = Part.failure? ⟨.key k, field.2, d⟩ := by
  rw [memberFailure?, List.find?_cons_of_pos (by simpa using h), Option.bind_some]

theorem memberFailure?_cons_of_ne (h : field.1 ≠ k) :
    memberFailure? (field :: fields) k d = memberFailure? fields k d := by
  rw [memberFailure?, List.find?_cons_of_neg (by simpa using h), memberFailure?]

theorem memberFailure?_of_notMem (h : k ∉ fields.map Prod.fst) :
    memberFailure? fields k d = none := by
  have hnone : (fields.find? fun f => f.1 = k) = none := by
    rw [List.find?_eq_none]
    intro f hf hfk
    exact h (List.mem_map.2 ⟨f, hf, of_decide_eq_true hfk⟩)
  rw [memberFailure?, hnone, Option.bind_none]

/-- A failure at the first member stands before all others, whichever field the member belongs
to. -/
theorem foldr_earlier_cons (hnames : (fields.map Prod.fst).Nodup) :
    (fields.map (fieldFailure? ((k, d) :: members))).foldr earlier none =
      ((memberFailure? fields k d).map fun m => (0, m)).or
        ((((fields.filter fun f => f.1 ≠ k).map (fieldFailure? members)).foldr earlier none).map
          later) := by
  induction fields with
  | nil => rfl
  | cons field fields ih =>
      rw [List.map_cons, List.nodup_cons] at hnames
      rw [List.map_cons, List.foldr_cons, ih hnames.2]
      by_cases hk : field.1 = k
      · -- no other field has this name
        rw [fieldFailure?_cons_self hk, memberFailure?_cons_self hk,
          memberFailure?_of_notMem (hk ▸ hnames.1), List.filter_cons_of_neg (by simpa using hk)]
        cases Part.failure? ⟨.key k, field.2, d⟩ with
        | none => rfl
        | some m => exact (earlier_first m _).1
      · rw [fieldFailure?_cons_of_ne hk, memberFailure?_cons_of_ne hk,
          List.filter_cons_of_pos (by simpa using hk), List.map_cons, List.foldr_cons,
          ← earlier_map_later]
        cases memberFailure? fields k d with
        | none => rfl
        | some m => exact (earlier_first m _).2

/-- Of an object without members only fields can be missing. -/
theorem path_eq_nil_of_foldr_nil {f : Nat × Mismatch}
    (h : (fields.map (fieldFailure? [])).foldr earlier none = some f) : f.2.path = [] := by
  induction fields with
  | nil => cases h
  | cons field fields ih =>
      rcases eq_or_eq_of_earlier h with h | h
      · obtain ⟨name, e⟩ := field
        cases e with
        | value form =>
            cases h
            rfl
        | orNull form => cases h
      · exact ih h

/-- Members are read in their order, whatever the order of the fields. This is where the two orders
meet. -/
theorem blames_members (hnames : (fields.map Prod.fst).Nodup) :
    Blames (Part.members fields members)
      (((fields.map (fieldFailure? members)).foldr earlier none).map Prod.snd) := by
  induction members generalizing fields with
  | nil =>
      refine blames_own fun m hm => ?_
      obtain ⟨f, hf, rfl⟩ := Option.map_eq_some_iff.1 hm
      exact path_eq_nil_of_foldr_nil hf
  | cons member members ih =>
      obtain ⟨k, d⟩ := member
      have hsub : ((fields.filter fun f => f.1 ≠ k).map Prod.fst).Nodup :=
        hnames.sublist (List.filter_sublist.map _)
      have hrest := ih hsub
      rw [foldr_earlier_cons hnames, Part.members]
      cases hfind : fields.find? fun f => f.1 = k with
      | none =>
          have hall : (fields.filter fun f => f.1 ≠ k) = fields := by
            rw [List.filter_eq_self]
            intro f hf
            simpa using List.find?_eq_none.1 hfind f hf
          rw [hall] at hrest ⊢
          rw [memberFailure?, hfind, Option.bind_none, Option.map_none, Option.none_or,
            Option.map_map]
          exact hrest
      | some f =>
          have hfailure : memberFailure? fields k d = Part.failure? ⟨.key k, f.2, d⟩ := by
            rw [memberFailure?, hfind, Option.bind_some]
          rw [hfailure]
          cases hpart : Part.failure? ⟨.key k, f.2, d⟩ with
          | some m => exact blames_cons_of_some hpart
          | none =>
              refine blames_cons_of_none hpart ?_
              rw [Option.map_none, Option.none_or, Option.map_map]
              exact hrest

end

/-! ## Regular forms -/

mutual

/-- No record has two fields of one name, and each name is told apart in the text of a path. The
forms of the model are regular, which is checked by evaluation. -/
def Form.regular {α : Type} : Form α → Bool
  | .list item => item.regular
  | .record _ fields _ _ => decide (fields.expected.map Prod.fst).Nodup && fields.regular
  | _ => true

/-- The same for the fields of a record. -/
def Fields.regular {ρ : Type} : Fields ρ → Bool
  | .nil => true
  | .required name form rest => Path.isPlainKey name && form.regular && rest.regular
  | .nullable name form rest => Path.isPlainKey name && form.regular && rest.regular
  | .omittable name form rest => Path.isPlainKey name && form.regular && rest.regular

end

/-- Whether what is expected is regular. -/
def Expected.regular : Expected → Bool
  | value form => form.regular
  | orNull form => form.regular

/-- The fields of a record are regular exactly if each of them is. -/
theorem Fields.regular_eq_all {ρ : Type} (fields : Fields ρ) : fields.regular =
    fields.expected.all fun field => Path.isPlainKey field.1 && field.2.regular :=
  match fields with
  | .nil => rfl
  | .required _ _ rest => by rw [Fields.regular, rest.regular_eq_all]; rfl
  | .nullable _ _ rest => by rw [Fields.regular, rest.regular_eq_all]; rfl
  | .omittable _ _ rest => by rw [Fields.regular, rest.regular_eq_all]; rfl

theorem Fields.regular_of_mem {ρ : Type} {fields : Fields ρ} (hfields : fields.regular = true)
    {field : String × Expected} (h : field ∈ fields.expected) :
    Path.isPlainKey field.1 = true ∧ field.2.regular = true := by
  rw [Fields.regular_eq_all, List.all_eq_true] at hfields
  exact Bool.and_eq_true_iff.1 (hfields field h)

/-! ## What is blamed for a failure -/

/-- The first part that does not fit is blamed for the failure of a form, and if there is none then
the value itself is. -/
theorem Form.blames_read {α : Type} {form : Form α} (hform : form.regular = true) (d : Data) :
    Blames (form.parts d) (failure? (form.read d)) := by
  cases form with
  | text =>
      refine blames_own fun m hm => ?_
      rw [Form.read] at hm
      split at hm
      · cases hm
      · cases hm
        rfl
  | flag =>
      refine blames_own fun m hm => ?_
      cases d <;> cases hm <;> rfl
  | number =>
      refine blames_own fun m hm => ?_
      cases d <;> cases hm <;> rfl
  | instant =>
      refine blames_own fun m hm => ?_
      rw [Form.read] at hm
      split at hm
      · rw [failure?_mapError] at hm
        obtain ⟨e, -, rfl⟩ := Option.map_eq_some_iff.1 hm
        rfl
      · cases hm
        rfl
  | json => exact blames_none
  | list item =>
      cases d with
      | array ds => exact blames_listItems item 0 ds
      | _ => exact blames_own fun m hm => by cases hm; rfl
  | word name words spell =>
      refine blames_own fun m hm => ?_
      cases d with
      | string s =>
          rw [Form.read] at hm
          split at hm <;> cases hm
          rfl
      | _ => cases hm; rfl
  | record name fields make split =>
      rw [Form.regular, Bool.and_eq_true, decide_eq_true_iff] at hform
      cases d with
      | object members =>
          rw [Form.read, failure?_map, failure?_mapError, Fields.failure?_readMembers]
          exact blames_members hform.1
      | array ds =>
          rw [Form.read]
          refine Fields.blames_readItems fields name fields.size 0 ds fun r rest m hm => ?_
          dsimp only at hm
          split at hm
          · cases hm
          · cases hm
            rfl
      | _ => exact blames_own fun m hm => by cases hm; rfl

/-- Whatever is expected, a failure is that of the first part that does not fit, or one of the value
itself. -/
theorem Expected.blames_failure? {e : Expected} (he : e.regular = true) (d : Data) :
    Blames (e.parts d) (e.failure? d) := by
  cases e with
  | value form => exact Form.blames_read he d
  | orNull form =>
      have hread := Form.blames_read he d
      cases d with
      | null =>
          have hnone : form.parts .null = [] := by cases form <;> rfl
          rw [Expected.parts, hnone]
          exact blames_none
      | _ =>
          show Blames _ (Result.failure? ((form.read _).map some))
          rw [failure?_map]
          exact hread

/-! ## Where parts stand -/

theorem Part.of_mem_elements {i : Nat} {es : List Expected} {ds : List Data} {p : Part}
    (h : p ∈ elements i es ds) :
    p.expected ∈ es ∧ ∃ j, p.step = .index (i + j) ∧ ds[j]? = some p.value := by
  induction ds generalizing i es with
  | nil =>
      rw [elements_nil] at h
      cases h
  | cons d ds ih =>
      cases es with
      | nil => cases h
      | cons e es =>
          rcases List.mem_cons.1 h with rfl | h
          · exact ⟨List.mem_cons_self, 0, rfl, rfl⟩
          · obtain ⟨hexpected, j, hstep, hvalue⟩ := ih h
            refine ⟨List.mem_cons_of_mem _ hexpected, j + 1, ?_, hvalue⟩
            rw [hstep, Nat.add_right_comm, Nat.add_assoc]

theorem Part.of_mem_members {fields : List (String × Expected)} {members : List (String × Data)}
    {p : Part} (h : p ∈ Part.members fields members) :
    ∃ field ∈ fields, p.expected = field.2 ∧ p.step = .key field.1 ∧
      Table.find? members field.1 = some p.value := by
  induction members generalizing fields with
  | nil => cases h
  | cons member members ih =>
      obtain ⟨k, d⟩ := member
      rw [Part.members] at h
      cases hfind : fields.find? fun f => f.1 = k with
      | none =>
          rw [hfind] at h
          obtain ⟨field, hfield, hexpected, hstep, hvalue⟩ := ih h
          have hne : field.1 ≠ k := by simpa using List.find?_eq_none.1 hfind field hfield
          refine ⟨field, hfield, hexpected, hstep, ?_⟩
          rw [Table.find?, if_neg (Ne.symm hne)]
          exact hvalue
      | some f =>
          rw [hfind] at h
          have hf : f.1 = k := by simpa using List.find?_some hfind
          rcases List.mem_cons.1 h with rfl | h
          · refine ⟨f, List.mem_of_find?_eq_some hfind, rfl, by rw [hf], ?_⟩
            rw [Table.find?, if_pos hf.symm]
          · obtain ⟨field, hfield, hexpected, hstep, hvalue⟩ := ih h
            obtain ⟨hfield, hne⟩ := List.mem_filter.1 hfield
            have hne : field.1 ≠ k := by simpa using hne
            refine ⟨field, hfield, hexpected, hstep, ?_⟩
            rw [Table.find?, if_neg (Ne.symm hne)]
            exact hvalue

/-- The step of a part leads to its value, so following a path of parts is following a path in the
data. -/
theorem Form.step?_of_mem_parts {α : Type} {form : Form α} {d : Data} {p : Part}
    (h : p ∈ form.parts d) : d.step? p.step = some p.value := by
  have helements : ∀ (es : List Expected) (ds : List Data), p ∈ Part.elements 0 es ds →
      Value.step? (.array ds) p.step = some p.value := by
    intro es ds hp
    obtain ⟨-, j, hstep, hvalue⟩ := Part.of_mem_elements hp
    rw [hstep, Value.step?, Nat.zero_add, hvalue]
  unfold Form.parts at h
  split at h
  · exact helements _ _ h
  · obtain ⟨field, -, -, hstep, hvalue⟩ := Part.of_mem_members h
    rw [hstep, Value.step?, hvalue]
  · exact helements _ _ h
  · cases h

/-- The parts of a regular form are regular, and their keys are told apart in the text of a path. -/
theorem Form.regular_of_mem_parts {α : Type} {form : Form α} (hform : form.regular = true)
    {d : Data} {p : Part} (h : p ∈ form.parts d) : p.expected.regular = true ∧
      ∀ key, p.step = .key key → Path.isPlainKey key = true := by
  unfold Form.parts at h
  split at h
  · obtain ⟨hexpected, j, hstep, -⟩ := Part.of_mem_elements h
    obtain ⟨_, -, hitem⟩ := List.mem_map.1 hexpected
    refine ⟨by rw [← hitem]; exact hform, fun key hkey => ?_⟩
    rw [hstep] at hkey
    cases hkey
  · rw [Form.regular, Bool.and_eq_true] at hform
    obtain ⟨field, hfield, hexpected, hstep, -⟩ := Part.of_mem_members h
    obtain ⟨hplain, hregular⟩ := Fields.regular_of_mem hform.2 hfield
    refine ⟨by rw [hexpected]; exact hregular, fun key hkey => ?_⟩
    rw [hstep] at hkey
    cases hkey
    exact hplain
  · rw [Form.regular, Bool.and_eq_true] at hform
    obtain ⟨hexpected, j, hstep, -⟩ := Part.of_mem_elements h
    obtain ⟨field, hfield, hexpected⟩ := List.mem_map.1 hexpected
    refine ⟨by rw [← hexpected]; exact (Fields.regular_of_mem hform.2 hfield).2, fun key hkey => ?_⟩
    rw [hstep] at hkey
    cases hkey
  · cases h

end Agenda
