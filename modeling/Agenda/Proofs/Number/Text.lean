/-
What the text of a number says.

Digits with a point and an exponent say a rational, whatever they are read as. The text of a double
says the decimal that was found for it, in either notation, because trailing zeros that are left out
are made up for by the exponent. Since that decimal belongs to one double only, numbers that differ
are written in texts that differ; an integer is told from a double by the mark of a fraction or of
an exponent, which the text of a double always has.
-/
import Agenda.Proofs.Json.Number
import Agenda.Proofs.Number.Interval

set_option autoImplicit false

namespace Agenda

namespace Numeral

/-! ## What a numeral says -/

/-- The digits of a fraction, if a point comes first, and what follows them. -/
def fractionOf : List Char → List Char × List Char
  | '.' :: cs => (cs.takeWhile isDigit, cs.dropWhile isDigit)
  | cs => ([], cs)

/-- The value of digits behind a sign, or without one. -/
def signedValue : List Char → ℤ
  | '-' :: digits => -value digits
  | '+' :: digits => value digits
  | digits => value digits

/-- The exponent that an `e` announces; none is zero. -/
def exponentOf : List Char → ℤ
  | 'e' :: cs => signedValue cs
  | 'E' :: cs => signedValue cs
  | _ => 0

/-- The rational that a numeral without a sign says. -/
def magnitude (cs : List Char) : ℚ :=
  let whole := cs.takeWhile isDigit
  let (fraction, rest) := fractionOf (cs.dropWhile isDigit)
  value (whole ++ fraction) * 10 ^ (exponentOf rest - fraction.length)

/-- The rational that a numeral says. -/
def exact : List Char → ℚ
  | '-' :: cs => -magnitude cs
  | cs => magnitude cs

/-! ## What the notations say -/

open Json.Reader

variable {digits tail : List Char}

/-- The whole digits, those of the fraction and the exponent make up the rational. -/
theorem magnitude_append (hdigits : Digits digits) (htail : Ends tail) :
    magnitude (digits ++ tail) = value (digits ++ (fractionOf tail).1) *
      10 ^ (exponentOf (fractionOf tail).2 - (fractionOf tail).1.length) := by
  rw [magnitude, takeWhile_append hdigits htail, dropWhile_append hdigits htail]

theorem magnitude_digits (hdigits : Digits digits) : magnitude digits = value digits := by
  have h := magnitude_append hdigits ends_nil
  rw [List.append_nil] at h
  rw [h]
  simp [fractionOf, exponentOf]

/-- A point divides by as many tens as there are digits behind it. -/
theorem magnitude_point {fraction : List Char} (hdigits : Digits digits)
    (hfraction : Digits fraction) (htail : Ends tail) :
    magnitude (digits ++ '.' :: (fraction ++ tail)) =
      value (digits ++ fraction) * 10 ^ (exponentOf tail - fraction.length) := by
  have hpoint : fractionOf ('.' :: (fraction ++ tail)) = (fraction, tail) := by
    rw [fractionOf, takeWhile_append hfraction htail, dropWhile_append hfraction htail]
  rw [magnitude_append hdigits (ends_cons rfl), hpoint]

theorem magnitude_exponent (hdigits : Digits digits) (cs : List Char) :
    magnitude (digits ++ 'e' :: cs) = value digits * 10 ^ signedValue cs := by
  rw [magnitude_append hdigits (ends_cons rfl)]
  simp [fractionOf, exponentOf]

theorem signedValue_digits (hdigits : Digits digits) : signedValue digits = value digits := by
  cases digits with
  | nil => rfl
  | cons c digits =>
      have hc := hdigits c List.mem_cons_self
      rw [signedValue]
      · rintro _ ⟨⟩
        exact absurd hc (by decide)
      · rintro _ ⟨⟩
        exact absurd hc (by decide)

/-- An exponent says its integer, with a plus sign or without. -/
theorem signedValue_ofInt (n : ℤ) :
    signedValue (if n < 0 then Numeral.ofInt n else '+' :: Numeral.ofInt n) = n := by
  rw [Numeral.ofInt]
  split
  · rw [signedValue, value_ofNat]
    omega
  · rw [signedValue, value_ofNat]
    omega

/-- The positional notation puts the first digit at the place of the leading one. -/
theorem magnitude_positional (hdigits : Digits digits) (leading : ℤ) :
    magnitude (Double.positional digits leading) =
      value digits * 10 ^ (leading + 1 - digits.length) := by
  rw [Double.positional]
  split
  -- below one: zeros stand between the point and the first digit
  · have hzeros := digits_replicate ((-leading).toNat - 1)
    have h := magnitude_point (digits_replicate 1) (hzeros.append hdigits) ends_nil
    rw [List.append_nil, ← List.append_assoc, ← List.replicate_add, value_zeros_append] at h
    refine h.trans ?_
    congr 2
    simp only [exponentOf, List.length_append, List.length_replicate]
    omega
  · simp only
    split
    -- no digit left for the places behind the point
    · have h := magnitude_point (hdigits.append (digits_replicate
        (leading.toNat + 1 - digits.length))) (digits_replicate 1) ends_nil
      rw [List.append_nil, value_append_zeros, value_append_zeros, Nat.mul_assoc,
        ← Nat.pow_add] at h
      refine h.trans ?_
      rw [Nat.cast_mul, mul_assoc, Nat.cast_pow, Nat.cast_ofNat, ← zpow_natCast,
        ← zpow_add₀ (by norm_num)]
      congr 2
      simp only [exponentOf, List.length_replicate]
      omega
    · have h := magnitude_point
        (fun c hc => hdigits c (List.mem_of_mem_take hc) : Digits (digits.take (leading.toNat + 1)))
        (fun c hc => hdigits c (List.mem_of_mem_drop hc) : Digits (digits.drop (leading.toNat + 1)))
        ends_nil
      rw [List.append_nil, List.take_append_drop] at h
      refine h.trans ?_
      congr 2
      simp only [exponentOf, List.length_drop]
      omega

/-- The scientific notation puts it before the point and counts places with the exponent. -/
theorem magnitude_scientific (hdigits : Digits digits) (leading : ℤ) :
    magnitude (Double.scientific digits leading) =
      value digits * 10 ^ (leading + 1 - digits.length) := by
  have hexponent : exponentOf ('e' :: (if leading < 0 then Numeral.ofInt leading
      else '+' :: Numeral.ofInt leading)) = leading := signedValue_ofInt leading
  unfold Double.scientific
  match digits with
  | [] =>
      refine (magnitude_exponent hdigits _).trans ?_
      simp [value]
  | [d] =>
      refine (magnitude_exponent hdigits _).trans ?_
      rw [signedValue_ofInt]
      simp
  | d :: e :: more =>
      have hfirst : Digits [d] := fun c hc => hdigits c (by simp_all)
      have hmore : Digits (e :: more) := fun c hc => hdigits c (List.mem_cons_of_mem _ hc)
      refine (magnitude_point hfirst hmore (ends_cons rfl)).trans ?_
      rw [hexponent]
      simp only [List.singleton_append, List.length_cons]
      congr 2
      omega

end Numeral

/-! ## Texts of numbers -/

namespace Double

open Numeral Json.Reader

/-- The text of a double, its sign apart. -/
def magnitudeText (x : Double) : List Char :=
  if x.isZero then ['0', '.', '0']
  else
    let d := x.shortest
    let all := Numeral.ofNat d.coefficient
    let digits := Numeral.dropTrailingZeros all
    let leading := d.exponent + all.length - 1
    if positionalExponents.1 ≤ leading ∧ leading ≤ positionalExponents.2 then
      positional digits leading
    else scientific digits leading

theorem text_eq (x : Double) :
    x.text = if x.negative then '-' :: x.magnitudeText else x.magnitudeText := rfl

/-- The text of a double says the decimal that was found for it. -/
theorem magnitude_magnitudeText (x : Double) : magnitude x.magnitudeText = x.decimal := by
  rw [magnitudeText, decimal]
  split
  · refine (magnitude_point (digits_replicate 1) (digits_replicate 1) ends_nil).trans ?_
    rw [← List.replicate_add, value_zeros, Nat.cast_zero, zero_mul]
  · obtain ⟨zeros, hzeros⟩ := exists_dropTrailingZeros (Numeral.ofNat x.shortest.coefficient)
    have hdigits := digits_dropTrailingZeros (digits_ofNat x.shortest.coefficient)
    have hlength := congrArg List.length hzeros
    rw [List.length_append, List.length_replicate] at hlength
    have hvalue := congrArg Numeral.value hzeros
    rw [value_ofNat, value_append_zeros] at hvalue
    -- in either notation the exponent makes up for the zeros that are dropped
    have hdecimal : (Numeral.value (dropTrailingZeros (ofNat x.shortest.coefficient)) : ℚ) *
        10 ^ (x.shortest.exponent + (ofNat x.shortest.coefficient).length - 1 + 1 -
          (dropTrailingZeros (ofNat x.shortest.coefficient)).length) =
        x.shortest.coefficient * 10 ^ x.shortest.exponent := by
      have hexponent : x.shortest.exponent + (ofNat x.shortest.coefficient).length - 1 + 1 -
          (dropTrailingZeros (ofNat x.shortest.coefficient)).length =
          zeros + x.shortest.exponent := by omega
      rw [hexponent, zpow_add₀ (by norm_num), zpow_natCast, ← mul_assoc]
      congr 1
      exact_mod_cast hvalue.symm
    simp only
    split
    · rw [magnitude_positional hdigits, hdecimal]
    · rw [magnitude_scientific hdigits, hdecimal]

theorem isMagnitude_magnitudeText (x : Double) : IsMagnitude x.magnitudeText := by
  rw [magnitudeText]
  split
  · exact isMagnitude_point (digits_replicate 1) (digits_replicate 1)
  · have hdigits := digits_dropTrailingZeros (digits_ofNat x.shortest.coefficient)
    simp only
    split
    · exact isMagnitude_positional hdigits _
    · exact isMagnitude_scientific hdigits _

/-- Behind the sign no other sign follows. -/
theorem magnitudeText_ne_minus (x : Double) (cs : List Char) : x.magnitudeText ≠ '-' :: cs := by
  obtain ⟨c, more, hcs, hc⟩ := x.isMagnitude_magnitudeText.exists_cons
  rintro h
  rw [hcs] at h
  obtain ⟨rfl, -⟩ := List.cons.inj h
  exact absurd hc (by decide)

/-- Doubles that differ are written in texts that differ. -/
theorem text_injective {x y : Double} (h : x.text = y.text) : x = y := by
  rw [text_eq, text_eq] at h
  have hdecimal : x.negative = y.negative ∧ x.magnitudeText = y.magnitudeText := by
    split at h <;> split at h
    · exact ⟨by simp_all, (List.cons.inj h).2⟩
    · exact absurd h.symm (y.magnitudeText_ne_minus _)
    · exact absurd h (x.magnitudeText_ne_minus _)
    · exact ⟨by simp_all, h⟩
  refine eq_of_decimal_eq hdecimal.1 ?_
  rw [← magnitude_magnitudeText, ← magnitude_magnitudeText, hdecimal.2]

/-- The text of a double has the mark of a fraction or of an exponent. -/
theorem exists_mark (x : Double) : ∃ c ∈ x.text, c = '.' ∨ c = 'e' := by
  have hmark : ∃ c ∈ x.magnitudeText, c = '.' ∨ c = 'e' := by
    rw [magnitudeText]
    split
    · exact ⟨'.', by simp, .inl rfl⟩
    · simp only
      split
      · refine ⟨'.', ?_, .inl rfl⟩
        rw [positional]
        split
        · simp
        · simp only
          split <;> simp
      · exact ⟨'e', List.mem_append_right _ List.mem_cons_self, .inr rfl⟩
  obtain ⟨c, hc, hmark⟩ := hmark
  refine ⟨c, ?_, hmark⟩
  rw [text_eq]
  split
  · exact List.mem_cons_of_mem _ hc
  · exact hc

end Double

namespace Number

open Numeral Json.Reader

theorem signedValue_ofInt (n : ℤ) : signedValue (Numeral.ofInt n) = n := by
  rw [Numeral.ofInt]
  split
  · rw [signedValue, value_ofNat]
    omega
  · rw [signedValue_digits (digits_ofNat _), value_ofNat]
    omega

/-- An integer is written without these marks. -/
theorem notMem_ofInt {n : ℤ} {c : Char} (hc : c = '.' ∨ c = 'e') : c ∉ Numeral.ofInt n := by
  intro hmem
  have hdigit : c ∈ ofNat n.natAbs := by
    rw [Numeral.ofInt] at hmem
    split at hmem
    · rcases List.mem_cons.1 hmem with rfl | hmem
      · exact absurd hc (by decide)
      · exact hmem
    · exact hmem
  have := isDigit_of_mem_ofNat hdigit
  rcases hc with rfl | rfl
  · exact absurd this (by decide)
  · exact absurd this (by decide)

/-- Numbers that differ are written in texts that differ. -/
theorem text_injective {m n : Number} (h : m.text = n.text) : m = n := by
  cases m with
  | integer k _ =>
      cases n with
      | integer l _ =>
          have hvalue := congrArg signedValue h
          rw [text, text, signedValue_ofInt, signedValue_ofInt] at hvalue
          subst hvalue
          rfl
      | float y =>
          obtain ⟨c, hc, hmark⟩ := y.exists_mark
          rw [text, text] at h
          exact absurd (h ▸ hc) (notMem_ofInt hmark)
  | float x =>
      cases n with
      | integer l _ =>
          obtain ⟨c, hc, hmark⟩ := x.exists_mark
          rw [text, text] at h
          exact absurd (h ▸ hc) (notMem_ofInt hmark)
      | float y => exact congrArg float (Double.text_injective h)

end Number

end Agenda
