/-
What each schema makes of a value.

For every kind of schema there is one statement that says when a conversion succeeds and with what,
and one that bounds the ways in which it fails by those in which its parts do.
-/
import Agenda.Proofs.Conversion.Walk
import Agenda.Proofs.Result
import Mathlib.Data.List.FinRange
import Mathlib.Data.List.Forall2

set_option autoImplicit false

namespace Agenda.Engine

variable {r : Registry} {d : Direction} {owner : Option String} {x out : Option Data} {site : Site}

/-- The conversion came to a result or to a rejection, and met no fault of the registry. A rejection
belongs to the value and lets a union go on; every other failure ends the run. -/
def Settles {α : Type} (result : Except ConversionError α) : Prop :=
  (∃ a, result = .ok a) ∨ ∃ rejection, result = .error (.rejected rejection)

theorem Settles.ok {α : Type} (a : α) : Settles (.ok a : Except ConversionError α) := .inl ⟨a, rfl⟩

theorem Settles.rejected {α : Type} (rejection : Rejection) :
    Settles (.error (.rejected rejection) : Except ConversionError α) := .inr ⟨rejection, rfl⟩

/-- A chain settles if its first step does, and the rest whenever the first step succeeds. The rest
is only asked about results that the first step really has, since later steps may rely on them. -/
theorem Settles.bind {α β : Type} {result : Except ConversionError α}
    {f : α → Except ConversionError β} (h : Settles result)
    (hf : ∀ a, result = .ok a → Settles (f a)) : Settles (result >>= f) := by
  rcases h with ⟨a, rfl⟩ | ⟨rejection, rfl⟩
  · exact hf a rfl
  · exact .rejected rejection

/-- The result is no failure other than those in `P`. With the set of failures as a parameter one
walk over the schemas serves for settling, for missing names and for the places of rejections. -/
def FailsOnly {α : Type} (P : ConversionError → Prop) (result : Except ConversionError α) : Prop :=
  ∀ e, result = .error e → P e

section

variable {α β : Type} {P : ConversionError → Prop}

theorem FailsOnly.ok (a : α) : FailsOnly P (.ok a : Except ConversionError α) :=
  fun e h => by cases h

theorem FailsOnly.error {e : ConversionError} (h : P e) :
    FailsOnly P (.error e : Except ConversionError α) := by
  rintro _ ⟨⟩
  exact h

/-- Fewer ways to fail are a stronger statement. -/
theorem FailsOnly.imp {Q : ConversionError → Prop} {result : Except ConversionError α}
    (h : FailsOnly P result) (himp : ∀ e, P e → Q e) : FailsOnly Q result :=
  fun e he => himp e (h e he)

/-- A chain fails in the ways of its first step and in those of the rest. -/
theorem FailsOnly.bind {result : Except ConversionError α} {f : α → Except ConversionError β}
    (h : FailsOnly P result) (hf : ∀ a, FailsOnly P (f a)) : FailsOnly P (result >>= f) := by
  cases result with
  | error e => exact .error (h e rfl)
  | ok a => exact hf a

/-- To settle is to fail in no way but by rejecting. -/
theorem settles_iff_failsOnly {result : Except ConversionError α} :
    Settles result ↔ FailsOnly (fun e => ∃ rejection, e = .rejected rejection) result := by
  cases result with
  | error e => simp [Settles, FailsOnly]
  | ok a => simp [Settles, FailsOnly]

end

/-! ## Kinds and words -/

/-- A null passes for a timestamp, and so does whatever can be taken for an instant; what comes out
depends on the direction. This is the only kind that changes the value it is given. -/
theorem convertUnder_timestamp_eq_ok_iff :
    convertUnder r d owner x site (.kind .timestamp) = .ok out ↔
      (x = some .null ∧ out = some .null) ∨
        ∃ t, instantOf? x = some t ∧ out = some (placeInstant d t) := by
  rw [convertUnder_kind, kind, if_pos rfl, timestamp, value?_subject]
  split
  · simp [instantOf?, eq_comm]
  · rename_i hx
    have hnull : ¬ x = some .null := hx
    cases hinstant : instantOf? x with
    | none => simp [reject, hnull]
    | some t => simp [hnull, eq_comm]

/-- Every other kind passes the value as it is, or refuses it. An absent value is one of those that
a kind may admit, which is how a property becomes optional. -/
theorem convertUnder_kind_eq_ok_iff {k : Kind} (hk : k ≠ .timestamp) :
    convertUnder r d owner x site (.kind k) = .ok out ↔ admits k x = true ∧ out = x := by
  rw [convertUnder_kind, kind, if_neg hk, value?_subject]
  split
  · simp [*, eq_comm]
  · simp [*, reject]

/-- Words pass as they are, and nothing else does: a number that is written like one of the words is
not that word. -/
theorem convertUnder_literals_eq_ok_iff {words : List String} {distinct : words.Nodup} :
    convertUnder r d owner x site (.literals words distinct) = .ok out ↔
      ∃ s ∈ words, x = some (.string s) ∧ out = x := by
  rw [convertUnder_literals, literals, value?_subject]
  split
  · rename_i s
    split
    · rename_i hs
      simp [hs, eq_comm]
    · rename_i hs
      simp only [reject, reduceCtorEq, Option.some.injEq, Value.string.injEq, false_iff, not_exists,
        not_and]
      rintro w hw rfl
      exact absurd hw hs
  · rename_i hx
    simp only [reject, reduceCtorEq, false_iff, not_exists, not_and]
    exact fun s _ h => absurd h (hx s)

/-- What is said of every refusal of the whole value at its own site. The text of what was expected
is left open, because it depends on the schema and not on the value. -/
def Refuses (P : ConversionError → Prop) (x : Option Data) (site : Site) : Prop :=
  ∀ expected, P (.rejected ⟨expected, x, site⟩)

section

variable {P : ConversionError → Prop}

/-- A refusal shows the value as the caller gave it, not as it was taken for the conversion. -/
theorem Refuses.reject {α : Type} (h : Refuses P x site) (expected : String) :
    FailsOnly P (reject (α := α) (subject r d x) site expected) := by
  rw [Engine.reject, value?_subject]
  exact .error (h expected)

/-- A kind refuses the whole value or nothing, so nothing is asked of its parts. The same goes for
words. -/
theorem failsOnly_kind (h : Refuses P x site) (k : Kind) :
    FailsOnly P (convertUnder r d owner x site (.kind k)) := by
  rw [convertUnder_kind, kind]
  split
  · rw [timestamp]
    split
    · exact .ok _
    · split
      · exact .ok _
      · exact h.reject _
  · split
    · exact .ok _
    · exact h.reject _

theorem failsOnly_literals (h : Refuses P x site) (words : List String)
    (distinct : words.Nodup) :
    FailsOnly P (convertUnder r d owner x site (.literals words distinct)) := by
  rw [convertUnder_literals, literals]
  split
  · split
    · exact .ok _
    · exact h.reject _
  · exact h.reject _

end

theorem settles_kind (k : Kind) : Settles (convertUnder r d owner x site (.kind k)) :=
  settles_iff_failsOnly.2 (failsOnly_kind (fun _ => ⟨_, rfl⟩) k)

theorem settles_literals (words : List String) (distinct : words.Nodup) :
    Settles (convertUnder r d owner x site (.literals words distinct)) :=
  settles_iff_failsOnly.2 (failsOnly_literals (fun _ => ⟨_, rfl⟩) words distinct)

/-! ## Arrays -/

/-- The elements of an array are converted one by one at the site of the array. Should one come out
absent, a null is left in its place, so that the others keep theirs. -/
theorem elements_eq_ok_iff {element : Schema} {items outs : List Data} :
    elements element site (convertItems r d items) = .ok outs ↔
      List.Forall₂ (fun v w => ∃ o, convert r d (some v) site element = .ok o ∧
        w = o.getD .null) items outs := by
  induction items generalizing outs with
  | nil => simp [convertItems, elements, eq_comm]
  | cons v rest ih =>
      simp only [convertItems, elements, Result.bind_eq_ok_iff, List.forall₂_cons_left_iff, ih,
        Except.ok.injEq]
      constructor
      · rintro ⟨o, ho, ws, hws, rfl⟩
        exact ⟨_, ws, ⟨o, ho, rfl⟩, hws, rfl⟩
      · rintro ⟨_, ws, ⟨o, ho, rfl⟩, hws, rfl⟩
        exact ⟨o, ho, ws, hws, rfl⟩

/-- An array passes exactly if its elements do, and there are as many of them afterwards. -/
theorem convertUnder_array_eq_ok_iff {element : Schema} :
    convertUnder r d owner x site (.array element) = .ok out ↔
      ∃ items outs, x = some (.array items) ∧ out = some (.array outs) ∧
        List.Forall₂ (fun v w => ∃ o, convert r d (some v) site element = .ok o ∧
          w = o.getD .null) items outs := by
  by_cases hx : ∃ items, x = some (.array items)
  · obtain ⟨items, rfl⟩ := hx
    simp only [convertUnder_array, Result.bind_eq_ok_iff, elements_eq_ok_iff, Except.ok.injEq,
      Option.some.injEq, Value.array.injEq]
    constructor
    · rintro ⟨outs, houts, rfl⟩
      exact ⟨items, outs, rfl, rfl, houts⟩
    · rintro ⟨_, outs, rfl, rfl, houts⟩
      exact ⟨outs, houts, rfl⟩
  · rw [not_exists] at hx
    rw [convertUnder_array_of_ne element hx]
    simp only [reject, reduceCtorEq, false_iff]
    rintro ⟨items, _, hitems, _⟩
    exact hx items hitems

/-- An array fails as a whole, if the value is none, or in the ways of its elements. The premise is
about the elements of this value only, so that it serves in an induction over values. -/
theorem failsOnly_array {P : ConversionError → Prop} {element : Schema}
    (hrefuses : Refuses P x site)
    (h : ∀ items, x = some (.array items) → ∀ v ∈ items,
      FailsOnly P (convert r d (some v) site element)) :
    FailsOnly P (convertUnder r d owner x site (.array element)) := by
  by_cases hx : ∃ items, x = some (.array items)
  · obtain ⟨items, rfl⟩ := hx
    rw [convertUnder_array]
    refine FailsOnly.bind ?_ fun outs => .ok _
    have hitems := h items rfl
    clear h hrefuses
    -- the elements are walked in order, and the first failure ends the walk
    induction items with
    | nil => exact .ok _
    | cons v rest ih =>
        rw [convertItems, elements]
        refine FailsOnly.bind (hitems v List.mem_cons_self) fun o => ?_
        exact FailsOnly.bind (ih fun u hu => hitems u (List.mem_cons_of_mem _ hu)) fun _ => .ok _
  · rw [not_exists] at hx
    rw [convertUnder_array_of_ne element hx]
    exact hrefuses.reject _

/-! ## Unions -/

section

variable {follow : String → Converted} {settle : Option String → Schema → Converted}
  {refuse : String → Converted}

/-- Anything but a rejection is the answer of the first candidate that does not reject. That covers
results and faults of the registry alike; hence the two premises in place of a result. -/
theorem firstOf_eq_iff {expected : String} {candidates : List Schema} {result : Converted}
    (hresult : ∀ rejection, result ≠ .error (.rejected rejection))
    (hrefuse : refuse expected ≠ result) :
    firstOf follow settle refuse expected candidates = result ↔
      ∃ before c after, candidates = before ++ c :: after ∧
        (∀ b ∈ before, ∃ rejection,
          walk follow settle refuse none b = .error (.rejected rejection)) ∧
        walk follow settle refuse none c = result := by
  induction candidates with
  | nil =>
      rw [firstOf]
      simp [hrefuse]
  | cons c rest ih =>
      rw [firstOf]
      split
      · rename_i rejection hc
        -- `c` rejects, so the candidate that answers stands in the rest
        rw [ih]
        constructor
        · rintro ⟨before, c', after, rfl, hbefore, hc'⟩
          refine ⟨c :: before, c', after, rfl, ?_, hc'⟩
          rintro b hb
          rcases List.mem_cons.1 hb with rfl | hb
          · exact ⟨rejection, hc⟩
          · exact hbefore b hb
        · rintro ⟨before, c', after, hsplit, hbefore, hc'⟩
          cases before with
          | nil =>
              obtain ⟨rfl, rfl⟩ := List.cons.inj hsplit
              exact absurd (hc'.symm.trans hc) (hresult rejection)
          | cons b before =>
              obtain ⟨rfl, rfl⟩ := List.cons.inj hsplit
              exact ⟨before, c', after, rfl, fun b hb => hbefore b (List.mem_cons_of_mem _ hb), hc'⟩
      · rename_i hc
        -- anything but a rejection is the answer, so no candidate can stand before `c`
        constructor
        · exact fun h => ⟨[], c, rest, rfl, by simp, h⟩
        · rintro ⟨before, c', after, hsplit, hbefore, hc'⟩
          cases before with
          | nil =>
              obtain ⟨rfl, rfl⟩ := List.cons.inj hsplit
              exact hc'
          | cons b before =>
              obtain ⟨rfl, rfl⟩ := List.cons.inj hsplit
              obtain ⟨rejection, hb⟩ := hbefore c List.mem_cons_self
              exact absurd hb (hc rejection)

end

/-- A union converts a value as its first candidate that does not reject it, provided that all
before it do reject. -/
theorem convertUnder_union_eq_ok_iff {candidates : List Schema} :
    convertUnder r d owner x site (.union candidates) = .ok out ↔
      ∃ before c after, candidates = before ++ c :: after ∧
        (∀ b ∈ before, ∃ rejection, convert r d x site b = .error (.rejected rejection)) ∧
        convert r d x site c = .ok out := by
  simp only [convert_eq_convertUnder]
  rw [convertUnder_union]
  exact firstOf_eq_iff (fun _ h => by cases h) fun h => by cases h

/-- A name that is missing ends the search for a candidate, whatever stands behind it. -/
theorem convertUnder_union_eq_schemaNotFound_iff {candidates : List Schema} {name : String} :
    convertUnder r d owner x site (.union candidates) = .error (.schemaNotFound name) ↔
      ∃ before c after, candidates = before ++ c :: after ∧
        (∀ b ∈ before, ∃ rejection, convert r d x site b = .error (.rejected rejection)) ∧
        convert r d x site c = .error (.schemaNotFound name) := by
  simp only [convert_eq_convertUnder]
  rw [convertUnder_union]
  exact firstOf_eq_iff (fun _ h => by cases h) fun h => by cases h

/-- The rejections of candidates are passed over, so that only their other failures count. -/
theorem failsOnly_union {P : ConversionError → Prop} {candidates : List Schema}
    (hrefuses : Refuses P x site)
    (h : ∀ c ∈ candidates, FailsOnly (fun e => (∀ rejection, e ≠ .rejected rejection) → P e)
      (convert r d x site c)) :
    FailsOnly P (convertUnder r d owner x site (.union candidates)) := by
  simp only [convert_eq_convertUnder] at h
  rw [convertUnder_union]
  -- what a union expects is described before its candidates are tried, so it stays as it is
  generalize Schema.describe (.union candidates) = expected
  induction candidates with
  | nil => exact hrefuses.reject expected
  | cons c rest ih =>
      rw [firstOf]
      split
      · exact ih fun c' hc' => h c' (List.mem_cons_of_mem _ hc')
      · rename_i hc
        intro e he
        refine h c List.mem_cons_self e he ?_
        rintro rejection rfl
        exact hc rejection he

end Agenda.Engine
