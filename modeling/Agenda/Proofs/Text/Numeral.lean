/-
Decimal numerals, read back.

What a numeral is made of is known from its definition by division: its characters are digits, it
has as many as the number needs, and adding them up again gives the number. Leading zeros change
only the width. A reader that takes digits as long as they come stops exactly behind a numeral if no
digit follows, or if it has taken as many as it may.
-/
import Agenda.Text.Numeral
import Mathlib.Algebra.Order.Ring.Nat
import Mathlib.Data.List.TakeWhile
import Mathlib.Tactic.Ring

set_option autoImplicit false

namespace Agenda.Numeral

/-! ## Digits -/

/-- The digits are those of ASCII, and no other digits that Unicode has. -/
theorem isDigit_iff {c : Char} : isDigit c = true ↔ '0' ≤ c ∧ c ≤ '9' := by
  rw [isDigit, digit?]
  split <;> simp [*]

/-- A digit stands for its distance from zero. -/
theorem digit?_eq_some {c : Char} (h : isDigit c = true) :
    digit? c = some (c.toNat - '0'.toNat) := by
  rw [digit?, if_pos (isDigit_iff.1 h)]

/-- The library's digits are the same characters. -/
theorem isDigit_of_char_isDigit {c : Char} (h : c.isDigit = true) : isDigit c = true := by
  rw [Char.isDigit, Bool.and_eq_true, decide_eq_true_iff, decide_eq_true_iff] at h
  exact isDigit_iff.2 ⟨h.1, h.2⟩

/-- On digits the value is that of the library. On other characters it is not, since these count as
zero here. -/
theorem value_eq_ofDigitChars {digits : List Char} (h : ∀ c ∈ digits, isDigit c = true) :
    value digits = Nat.ofDigitChars 10 digits 0 := by
  have hfold : ∀ n, digits.foldl (fun n c => n * 10 + (digit? c).getD 0) n =
      Nat.ofDigitChars 10 digits n := by
    induction digits with
    | nil =>
        intro n
        rw [Nat.ofDigitChars_nil, List.foldl_nil]
    | cons c digits ih =>
        intro n
        rw [List.foldl_cons, Nat.ofDigitChars_cons, digit?_eq_some (h c List.mem_cons_self),
          Option.getD_some, Nat.mul_comm n 10]
        exact ih (fun c hc => h c (List.mem_cons_of_mem _ hc)) _
  exact hfold 0

/-! ## The digits of a number -/

theorem ofNat_ne_nil (n : Nat) : ofNat n ≠ [] := Nat.toDigits_ne_nil

theorem isDigit_of_mem_ofNat {n : Nat} {c : Char} (h : c ∈ ofNat n) : isDigit c = true :=
  isDigit_of_char_isDigit (Nat.isDigit_of_mem_toDigits (by decide) (by decide) h)

/-- The digits of a number have its value. -/
theorem value_ofNat (n : Nat) : value (ofNat n) = n := by
  rw [value_eq_ofDigitChars fun c hc => isDigit_of_mem_ofNat hc]
  exact Nat.ofDigitChars_ten_toDigits

/-- The value of digits behind other digits. Readers gather from the left, so this is what they have
gathered at any time. -/
def valueFrom (n : Nat) (digits : List Char) : Nat :=
  digits.foldl (fun n c => n * 10 + (digit? c).getD 0) n

/-- Gathering never makes a number smaller, so a bound on the end is one on the way. -/
theorem le_valueFrom (n : Nat) (digits : List Char) : n ≤ valueFrom n digits := by
  induction digits generalizing n with
  | nil => exact Nat.le_refl n
  | cons c digits ih =>
      have hc := ih (n * 10 + (digit? c).getD 0)
      rw [valueFrom, List.foldl_cons]
      rw [valueFrom] at hc
      omega

/-- Digits stand for less than a one with as many zeros. Widths are turned into bounds by this. -/
theorem valueFrom_lt {digits : List Char} (h : ∀ c ∈ digits, isDigit c = true) (n : Nat) :
    valueFrom n digits < (n + 1) * 10 ^ digits.length := by
  induction digits generalizing n with
  | nil => simp [valueFrom]
  | cons c digits ih =>
      have hc := isDigit_iff.1 (h c List.mem_cons_self)
      have hlt : c.toNat - '0'.toNat < 10 := by
        have hle : c.toNat ≤ '9'.toNat := hc.2
        have hnine : '9'.toNat = '0'.toNat + 9 := rfl
        omega
      have hrest := ih (fun d hd => h d (List.mem_cons_of_mem _ hd))
        (n * 10 + (c.toNat - '0'.toNat))
      rw [valueFrom, List.foldl_cons, digit?_eq_some (h c List.mem_cons_self), Option.getD_some,
        List.length_cons, Nat.pow_succ]
      refine Nat.lt_of_lt_of_le hrest ?_
      have hfactor : n * 10 + (c.toNat - '0'.toNat) + 1 ≤ (n + 1) * 10 := by omega
      calc (n * 10 + (c.toNat - '0'.toNat) + 1) * 10 ^ digits.length
          ≤ (n + 1) * 10 * 10 ^ digits.length := Nat.mul_le_mul_right _ hfactor
        _ = (n + 1) * (10 ^ digits.length * 10) := by ring

/-- A numeral of more than one digit does not begin with a zero, which no reader of JSON would
take. -/
theorem tail_eq_nil_of_zero {n : Nat} {digits : List Char} (h : ofNat n = '0' :: digits) :
    digits = [] := by
  by_contra hne
  have hpos : 0 < digits.length := List.length_pos_iff.2 hne
  have hdigits : ∀ c ∈ digits, isDigit c = true := fun c hc =>
    isDigit_of_mem_ofNat (h ▸ List.mem_cons_of_mem _ hc)
  -- Without the zero the value is the same, but then it has too few digits.
  have hvalue : valueFrom 0 digits = n := by
    rw [← value_ofNat n, h]
    rfl
  have hlt : n < 10 ^ digits.length := by
    have hbound := valueFrom_lt hdigits 0
    rwa [hvalue, Nat.zero_add, Nat.one_mul] at hbound
  have hlength := (Nat.length_toDigits_le_iff (by decide) hpos).2 hlt
  have hcons : (Nat.toDigits 10 n).length = digits.length + 1 := congrArg List.length h
  omega

/-! ## Leading zeros -/

theorem isDigit_of_mem_padded {width n : Nat} {c : Char} (h : c ∈ padded width n) :
    isDigit c = true := by
  rw [padded, List.mem_append] at h
  rcases h with h | h
  · rw [List.eq_of_mem_replicate h]
    rfl
  · exact isDigit_of_mem_ofNat h

/-- Leading zeros do not change the value. -/
theorem value_padded (width n : Nat) : value (padded width n) = n := by
  rw [value_eq_ofDigitChars fun c hc => isDigit_of_mem_padded hc, padded, Nat.ofDigitChars_append,
    Nat.ofDigitChars_replicate_zero, Nat.mul_zero]
  exact Nat.ofDigitChars_ten_toDigits

theorem padded_ne_nil (width n : Nat) : padded width n ≠ [] := by
  rw [padded]
  exact fun h => ofNat_ne_nil n (List.append_eq_nil_iff.1 h).2

/-- A number that fits a width is written in that width. One that does not is written in full, so a
bound must be given. -/
theorem length_padded {width n : Nat} (hwidth : 0 < width) (hn : n < 10 ^ width) :
    (padded width n).length = width := by
  have hlength : (ofNat n).length ≤ width :=
    (Nat.length_toDigits_le_iff (by decide) hwidth).2 hn
  rw [padded, List.length_append, List.length_replicate]
  omega

/-- A numeral begins with a digit, which is what a form looks for where no sign is allowed. -/
theorem exists_padded_eq_cons (width n : Nat) :
    ∃ c cs, padded width n = c :: cs ∧ isDigit c = true := by
  obtain ⟨c, cs, hcs⟩ := List.exists_cons_of_ne_nil (padded_ne_nil width n)
  exact ⟨c, cs, hcs, isDigit_of_mem_padded (hcs ▸ List.mem_cons_self)⟩

/-! ## The value of digits -/

/-- What was gathered before is shifted by the digits that follow. -/
theorem valueFrom_eq (n : Nat) (digits : List Char) :
    valueFrom n digits = n * 10 ^ digits.length + value digits := by
  have hvalue : ∀ m, valueFrom m digits = m * 10 ^ digits.length + valueFrom 0 digits := by
    induction digits with
    | nil => simp [valueFrom]
    | cons c digits ih =>
        intro m
        have hm := ih (m * 10 + (digit? c).getD 0)
        have hzero := ih (0 * 10 + (digit? c).getD 0)
        rw [valueFrom] at hm hzero
        rw [valueFrom, valueFrom, List.foldl_cons, List.foldl_cons, hm, hzero, List.length_cons]
        ring
  exact hvalue n

/-- A fraction is joined to the whole part in this way, as one row of digits. -/
theorem value_append (as bs : List Char) :
    value (as ++ bs) = value as * 10 ^ bs.length + value bs := by
  rw [← valueFrom_eq, valueFrom, value, List.foldl_append]
  rfl

theorem value_zeros (n : Nat) : value (List.replicate n '0') = 0 := by
  induction n with
  | zero => rfl
  | succ n ih =>
      rw [List.replicate_succ', value_append, ih]
      rfl

/-- Zeros behind digits multiply, and zeros before them do nothing. Doubles are written with
either. -/
theorem value_append_zeros (digits : List Char) (n : Nat) :
    value (digits ++ List.replicate n '0') = value digits * 10 ^ n := by
  rw [value_append, value_zeros, List.length_replicate, Nat.add_zero]

theorem value_zeros_append (n : Nat) (digits : List Char) :
    value (List.replicate n '0' ++ digits) = value digits := by
  rw [value_append, value_zeros, Nat.zero_mul, Nat.zero_add]

/-! ## Zeros at the end -/

/-- What is dropped at the end are zeros, so the value can be had back from what is left and their
number. -/
theorem exists_dropTrailingZeros (cs : List Char) :
    ∃ n, cs = dropTrailingZeros cs ++ List.replicate n '0' := by
  refine ⟨(cs.reverse.takeWhile (· = '0')).length, ?_⟩
  have hzeros : cs.reverse.takeWhile (· = '0') =
      List.replicate (cs.reverse.takeWhile (· = '0')).length '0' := by
    rw [List.eq_replicate_iff]
    exact ⟨rfl, fun c hc => by simpa using List.mem_takeWhile_imp hc⟩
  have hsplit := congrArg List.reverse (List.takeWhile_append_dropWhile
    (p := (decide <| · = '0')) (l := cs.reverse))
  rw [List.reverse_append, List.reverse_reverse, hzeros, List.reverse_replicate] at hsplit
  rw [dropTrailingZeros]
  exact hsplit.symm

theorem mem_of_mem_dropTrailingZeros {cs : List Char} {c : Char} (h : c ∈ dropTrailingZeros cs) :
    c ∈ cs := by
  rw [dropTrailingZeros, List.mem_reverse] at h
  exact List.mem_reverse.1 ((List.dropWhile_suffix _).subset h)

/-! ## Where a numeral ends -/

/-- No digit comes next. Every scanner of digits stops here, so this is what has to be known of the
text behind a number. -/
def Ends (rest : List Char) : Prop := ∀ c ∈ rest.head?, isDigit c = false

theorem ends_nil : Ends [] := by simp [Ends]

theorem ends_cons {c : Char} {rest : List Char} (h : isDigit c = false) : Ends (c :: rest) := by
  intro a ha
  rw [List.head?_cons, Option.mem_some_iff] at ha
  exact ha ▸ h

/-- What follows the end of the digits is not taken with them, whatever it is. -/
theorem takeWhile_append_ends (cs : List Char) {rest : List Char} (hrest : Ends rest) :
    (cs ++ rest).takeWhile isDigit = cs.takeWhile isDigit := by
  induction cs with
  | nil =>
      cases rest with
      | nil => rfl
      | cons c rest => rw [List.nil_append, List.takeWhile_cons, hrest c rfl, if_neg (by simp)]; rfl
  | cons c cs ih => rw [List.cons_append, List.takeWhile_cons, List.takeWhile_cons, ih]

/-- And is still there when they are dropped. -/
theorem dropWhile_append_ends (cs : List Char) {rest : List Char} (hrest : Ends rest) :
    (cs ++ rest).dropWhile isDigit = cs.dropWhile isDigit ++ rest := by
  induction cs with
  | nil =>
      cases rest with
      | nil => rfl
      | cons c rest => rw [List.nil_append, List.dropWhile_cons, hrest c rfl, if_neg (by simp)]; rfl
  | cons c cs ih =>
      rw [List.cons_append, List.dropWhile_cons, List.dropWhile_cons]
      split
      · exact ih
      · rfl

/-- Taking digits as long as they come stops behind the digits. With a width that is large enough
this is all that a scanner does. -/
theorem takeWhile_append {digits rest : List Char} (hdigits : ∀ c ∈ digits, isDigit c = true)
    (hrest : Ends rest) : (digits ++ rest).takeWhile isDigit = digits := by
  rw [takeWhile_append_ends digits hrest, List.takeWhile_eq_self_iff.2 hdigits]

/-- So does dropping them. -/
theorem dropWhile_append {digits rest : List Char} (hdigits : ∀ c ∈ digits, isDigit c = true)
    (hrest : Ends rest) : (digits ++ rest).dropWhile isDigit = rest := by
  rw [dropWhile_append_ends digits hrest, List.dropWhile_eq_nil_iff.2 hdigits, List.nil_append]

end Agenda.Numeral
