/-
Lists beside lists, and options beside options.

What a conversion makes of an array or an object is a list beside another one. A few rules about
such pairs of lists come back in several places: what each pair gives may be used together with
where the first of the two stands, and partners for the elements, one by one, are a list of
partners. The last rule is about a single list: where there is an element of some kind, there is a
first one.
-/
import Agenda.Proofs.Result
import Mathlib.Data.List.Forall2

set_option autoImplicit false

namespace Agenda

variable {α β : Type} {P Q : α → β → Prop} {l : List α} {u : List β}

/-- A relation may be changed along a list with the knowledge of where its first member stands. -/
theorem forall₂_imp_of_mem (h : List.Forall₂ P l u) (himp : ∀ a ∈ l, ∀ b, P a b → Q a b) :
    List.Forall₂ Q l u :=
  ((List.forall₂_and_left l u).2 ⟨himp, h⟩).imp fun _ b hab => hab.1 b hab.2

/-- Partners of partners. -/
theorem forall₂_trans {γ : Type} {R : β → γ → Prop} {m : List γ} (h : List.Forall₂ P l u)
    (h' : List.Forall₂ R u m) : List.Forall₂ (fun a c => ∃ b, P a b ∧ R b c) l m := by
  induction h generalizing m with
  | nil =>
      cases h'
      exact .nil
  | cons hab _ ih =>
      cases h' with
      | cons hbc h' => exact .cons ⟨_, hab, hbc⟩ (ih h')

/-- Images one by one are the list of images. -/
theorem eq_map_of_forall₂ {f : β → α} (h : List.Forall₂ (fun a b => a = f b) l u) :
    l = u.map f := by
  rwa [← List.forall₂_eq_eq_eq, List.forall₂_map_right_iff]

/-- There is a list beside another one as soon as there is a partner for every element. -/
theorem exists_forall₂_iff : (∃ u, List.Forall₂ P l u) ↔ ∀ a ∈ l, ∃ b, P a b := by
  induction l with
  | nil => simp
  | cons a l ih =>
      simp only [List.forall₂_cons_left_iff, List.forall_mem_cons, ← ih]
      constructor
      · rintro ⟨_, b, u, hab, hu, rfl⟩
        exact ⟨⟨b, hab⟩, u, hu⟩
      · rintro ⟨⟨b, hab⟩, u, hu⟩
        exact ⟨b :: u, b, u, hab, hu, rfl⟩

/-- Two relations to a third element that are found pair by pair are found for lists. -/
theorem exists_forall₂_both {γ : Type} {R : α → γ → Prop} {S : β → γ → Prop}
    (h : List.Forall₂ (fun a b => ∃ c, R a c ∧ S b c) l u) :
    ∃ cs, List.Forall₂ R l cs ∧ List.Forall₂ S u cs := by
  induction h with
  | nil => exact ⟨[], .nil, .nil⟩
  | cons hab _ ih =>
      obtain ⟨c, hac, hbc⟩ := hab
      obtain ⟨cs, hl, hu⟩ := ih
      exact ⟨c :: cs, .cons hac hl, .cons hbc hu⟩

/-- A list of results is a success exactly if each of them is. -/
theorem mapM_eq_ok_iff {ε : Type} {f : α → Except ε β} :
    l.mapM f = .ok u ↔ List.Forall₂ (fun a b => f a = .ok b) l u := by
  induction l generalizing u with
  | nil =>
      rw [List.mapM_nil, List.forall₂_nil_left_iff]
      exact ⟨fun h => (Except.ok.inj h).symm, fun h => congrArg Except.ok h.symm⟩
  | cons a l ih =>
      simp only [List.mapM_cons, Result.bind_eq_ok_iff, List.forall₂_cons_left_iff, ih]
      constructor
      · rintro ⟨b, hb, bs, hbs, h⟩
        exact ⟨b, bs, hb, hbs, (Except.ok.inj h).symm⟩
      · rintro ⟨b, bs, hb, hbs, rfl⟩
        exact ⟨b, hb, bs, hbs, rfl⟩

/-- A member of a list has its partner beside it. -/
theorem exists_mem_zip_of_forall₂ (h : List.Forall₂ P l u) {a : α} (ha : a ∈ l) :
    ∃ b, (a, b) ∈ l.zip u ∧ P a b := by
  induction h with
  | nil => cases ha
  | cons hab _ ih =>
      rw [List.zip_cons_cons]
      rcases List.mem_cons.1 ha with rfl | ha
      · exact ⟨_, List.mem_cons_self, hab⟩
      · obtain ⟨b, hmem, hb⟩ := ih ha
        exact ⟨b, List.mem_cons_of_mem _ hmem, hb⟩

/-- Lists of one length have elements at the same positions. -/
theorem isSome_getElem?_of_length {l : List α} {u : List β} (h : l.length = u.length) (i : Nat) :
    l[i]?.isSome = u[i]?.isSome := by
  rw [Bool.eq_iff_iff]
  simp [h]

/-- Partners stand at the same positions. -/
theorem rel_getElem? (h : List.Forall₂ P l u) (i : Nat) : Option.Rel P l[i]? u[i]? := by
  induction h generalizing i with
  | nil => exact .none
  | cons hab _ ih =>
      cases i with
      | zero => exact .some hab
      | succ i => exact ih i

/-- What is found on one side has its partner on the other. -/
theorem optionRel_iff {x : Option α} {y : Option β} :
    Option.Rel P x y ↔ x.isSome = y.isSome ∧ ∀ a b, x = some a → y = some b → P a b := by
  constructor
  · rintro (h | _)
    · exact ⟨rfl, by rintro _ _ ⟨⟩ ⟨⟩; exact h⟩
    · exact ⟨rfl, by rintro _ _ ⟨⟩⟩
  · rintro ⟨hsome, h⟩
    cases x with
    | none =>
        obtain rfl : y = none := by simpa using hsome.symm
        exact .none
    | some a =>
        obtain ⟨b, rfl⟩ := Option.isSome_iff_exists.1 hsome.symm
        exact .some (h a b rfl rfl)

theorem exists_left_of_optionRel {x : Option α} {b : β} (h : Option.Rel P x (some b)) :
    ∃ a, x = some a ∧ P a b := by
  cases h with
  | some hab => exact ⟨_, rfl, hab⟩

theorem optionRel_imp {Q : α → β → Prop} {x : Option α} {y : Option β} (hxy : Option.Rel P x y)
    (h : ∀ a b, P a b → Q a b) : Option.Rel Q x y := by
  cases hxy with
  | some hab => exact .some (h _ _ hab)
  | none => exact .none

theorem eq_of_optionRel {x y : Option α} (h : Option.Rel (· = ·) x y) : x = y := by
  cases h with
  | some hab => rw [hab]
  | none => rfl

/-- What is found from partners on either side is partnered again. -/
theorem optionRel_bind {γ δ : Type} {R : γ → δ → Prop} {x : Option α} {y : Option β}
    {f : α → Option γ} {g : β → Option δ} (hxy : Option.Rel P x y)
    (h : ∀ a b, P a b → Option.Rel R (f a) (g b)) : Option.Rel R (x.bind f) (y.bind g) := by
  cases hxy with
  | some hab => exact h _ _ hab
  | none => exact .none

/-- The first that is found, or the second. -/
theorem optionRel_or {R : α → β → Prop} {x x' : Option α} {y y' : Option β}
    (h : Option.Rel R x y) (h' : Option.Rel R x' y') : Option.Rel R (x.or x') (y.or y') := by
  cases h with
  | some hab => exact .some hab
  | none => exact h'

/-- Of the elements with a property there is a first one. -/
theorem exists_first {p : α → Prop} (h : ∃ a ∈ l, p a) :
    ∃ before a after, l = before ++ a :: after ∧ (∀ b ∈ before, ¬ p b) ∧ p a := by
  induction l with
  | nil => simp at h
  | cons a l ih =>
      by_cases ha : p a
      · exact ⟨[], a, l, rfl, by simp, ha⟩
      · have hl : ∃ b ∈ l, p b := by simpa [ha] using h
        obtain ⟨before, b, after, rfl, hbefore, hb⟩ := ih hl
        exact ⟨a :: before, b, after, rfl, List.forall_mem_cons.2 ⟨ha, hbefore⟩, hb⟩

end Agenda
