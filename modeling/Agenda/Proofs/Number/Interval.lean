/-
The interval around a double, and the decimal that is found in it.

Every double has its interval of rationals that round to it, counted in quarters of the gap above
it. Two intervals share no point: those of one exponent touch at most in an end, which belongs to
the even neighbour only, and where the exponent changes the upper end of the lower binade belongs to
an odd significand. So a rational in the interval of a double determines the double. The search for
the shortest decimal ends in the interval, because on the grid of seventeen digits two neighbouring
points are too close for the interval to lie between them.
-/
import Agenda.Number.Shortest
import Agenda.Proofs.Text.Numeral
import Mathlib.Algebra.Order.Field.Power
import Mathlib.Algebra.Order.Field.Rat
import Mathlib.Tactic.Linarith
import Mathlib.Tactic.NormNum
import Mathlib.Tactic.Positivity
import Mathlib.Tactic.Zify

set_option autoImplicit false

namespace Agenda.Double

variable {x y : Double} {q : ℚ}

/-! ## The interval -/

/-- A quarter of the gap above the double. -/
def quarter (x : Double) : ℚ := 2 ^ (x.exponent - 2)

theorem quarter_pos (x : Double) : 0 < x.quarter := zpow_pos (by norm_num) _

/-- The rationals that round to the double. The ends are among them if the significand is even. -/
def Surrounds (x : Double) (q : ℚ) : Prop :=
  if x.significand % 2 = 0 then x.lowerEnd * x.quarter ≤ q ∧ q ≤ x.upperEnd * x.quarter
  else x.lowerEnd * x.quarter < q ∧ q < x.upperEnd * x.quarter

theorem Surrounds.le (h : x.Surrounds q) :
    x.lowerEnd * x.quarter ≤ q ∧ q ≤ x.upperEnd * x.quarter := by
  rw [Surrounds] at h
  split at h
  · exact h
  · exact ⟨h.1.le, h.2.le⟩

theorem Surrounds.lt (h : x.Surrounds q) (hodd : x.significand % 2 ≠ 0) :
    x.lowerEnd * x.quarter < q ∧ q < x.upperEnd * x.quarter := by
  rwa [Surrounds, if_neg hodd] at h

theorem significand_lt (x : Double) : x.significand < 9007199254740992 := x.canonical.1

/-- Above the lowest exponent the significand fills 53 bits. -/
theorem significand_ge (hexponent : -1074 < x.exponent) : 4503599627370496 ≤ x.significand := by
  rcases x.canonical.2.2.2 with h | h
  · exact h
  · omega

theorem lowerEnd_ge (x : Double) : 4 * x.significand - 2 ≤ x.lowerEnd := by
  rw [lowerEnd]
  split <;> omega

theorem lowerEnd_ge_of_lt (hexponent : -1074 < x.exponent) :
    18014398509481983 ≤ x.lowerEnd := by
  have hpow : Nat.pow 2 52 = 4503599627370496 := rfl
  have hfull := significand_ge hexponent
  rw [lowerEnd, hpow]
  split <;> omega

/-! ## Intervals apart -/

/-- How doubles are ordered whose significands are not zero. -/
def Below (x y : Double) : Prop :=
  x.exponent < y.exponent ∨ x.exponent = y.exponent ∧ x.significand < y.significand

/-- The interval of a double lies below those of the doubles above it, and even significands leave a
gap between the two. -/
theorem upperEnd_le_lowerEnd (h : x.Below y) {gap : ℕ}
    (hgap : gap = 0 ∨ gap = 1 ∧ x.significand % 2 = 0 ∧ y.significand % 2 = 0) :
    (x.upperEnd + gap : ℕ) * x.quarter ≤ y.lowerEnd * y.quarter := by
  rcases h with h | ⟨hexponent, hlt⟩
  -- a unit of the upper binade counts at least two of the lower one, whose last significand is odd
  · have hx := x.significand_lt
    have hends : x.upperEnd + gap ≤ y.lowerEnd * 2 := by
      have hleast := x.canonical.2.1
      have := lowerEnd_ge_of_lt (show -1074 < y.exponent by omega)
      rw [upperEnd]
      omega
    have hdouble : 2 * x.quarter ≤ y.quarter := by
      have hstep : 2 * x.quarter = 2 ^ (x.exponent - 2 + 1) := by
        rw [zpow_add_one₀ (by norm_num), quarter, mul_comm]
      rw [hstep, quarter]
      exact zpow_le_zpow_right₀ (by norm_num) (by omega)
    calc (x.upperEnd + gap : ℕ) * x.quarter ≤ (y.lowerEnd * 2 : ℕ) * x.quarter :=
          mul_le_mul_of_nonneg_right (by exact_mod_cast hends) x.quarter_pos.le
      _ = y.lowerEnd * (2 * x.quarter) := by push_cast; ring
      _ ≤ y.lowerEnd * y.quarter := mul_le_mul_of_nonneg_left hdouble (by positivity)
  -- within a binade two neighbours are not both even
  · have hquarter : x.quarter = y.quarter := by rw [quarter, quarter, hexponent]
    have hends : x.upperEnd + gap ≤ y.lowerEnd := by
      have := y.lowerEnd_ge
      rw [upperEnd]
      omega
    rw [hquarter]
    exact mul_le_mul_of_nonneg_right (by exact_mod_cast hends) y.quarter_pos.le

/-- So they share no point. -/
theorem Surrounds.not_below (hx : x.Surrounds q) (hy : y.Surrounds q) : ¬ x.Below y := by
  intro h
  have hle := upperEnd_le_lowerEnd h (.inl rfl)
  rw [Nat.add_zero] at hle
  by_cases hxe : x.significand % 2 = 0
  · by_cases hye : y.significand % 2 = 0
    · have hgap := upperEnd_le_lowerEnd h (.inr ⟨rfl, hxe, hye⟩)
      have hquarter := x.quarter_pos
      push_cast at hgap
      linarith [hx.le.2, hy.le.1]
    · linarith [hx.le.2, (hy.lt hye).1]
  · linarith [(hx.lt hxe).2, hy.le.1]

/-- A rational rounds to one double only, its sign apart. -/
theorem Surrounds.unique (hx : x.Surrounds q) (hy : y.Surrounds q) :
    x.significand = y.significand ∧ x.exponent = y.exponent := by
  have hxy := hx.not_below hy
  have hyx := hy.not_below hx
  rw [Below] at hxy hyx
  omega

/-! ## Comparing in natural numbers -/

section

variable (x) (k : ℤ)

theorem zpow_mul_pow {b : ℚ} (hb : b ≠ 0) (n : ℤ) : b ^ n * b ^ (-n).toNat = b ^ n.toNat := by
  rw [← zpow_natCast, ← zpow_natCast, ← zpow_add₀ hb]
  congr 1
  omega

theorem commonFactors_pos : 0 < (x.commonFactors k).1 ∧ 0 < (x.commonFactors k).2 :=
  ⟨Nat.mul_pos (Nat.pow_pos (by decide)) (Nat.pow_pos (by decide)),
    Nat.mul_pos (Nat.pow_pos (by decide)) (Nat.pow_pos (by decide))⟩

/-- The factors bring quarters and multiples of a power of ten to a common denominator. -/
theorem commonFactors_eq :
    ((x.commonFactors k).1 : ℚ) * 10 ^ k = (x.commonFactors k).2 * x.quarter := by
  have htwo := zpow_mul_pow (show (2 : ℚ) ≠ 0 by norm_num) (x.exponent - 2)
  have hten := zpow_mul_pow (show (10 : ℚ) ≠ 0 by norm_num) k
  simp only [commonFactors, Nat.pow_eq, Nat.cast_mul, Nat.cast_pow, Nat.cast_ofNat, quarter]
  rw [← htwo, ← hten]
  ring

variable {k} (p c : ℕ)

theorem position_mul_eq : ((p * (x.commonFactors k).1 : ℕ) : ℚ) * 10 ^ k =
    (x.commonFactors k).2 * (p * x.quarter) := by
  rw [Nat.cast_mul, mul_assoc, commonFactors_eq]
  ring

theorem decimal_mul_eq : ((c * (x.commonFactors k).2 : ℕ) : ℚ) * 10 ^ k =
    (x.commonFactors k).2 * (c * 10 ^ k) := by
  rw [Nat.cast_mul]
  ring

/-- Cross multiplication with the factors compares a position with a decimal. -/
theorem position_le_iff : p * (x.commonFactors k).1 ≤ c * (x.commonFactors k).2 ↔
    (p : ℚ) * x.quarter ≤ c * 10 ^ k := by
  have hfactor : (0 : ℚ) < (x.commonFactors k).2 := Nat.cast_pos.2 (x.commonFactors_pos k).2
  have hten : (0 : ℚ) < 10 ^ k := zpow_pos (by norm_num) k
  rw [← Nat.cast_le (α := ℚ), ← mul_le_mul_iff_of_pos_right hten, position_mul_eq,
    decimal_mul_eq, mul_le_mul_iff_of_pos_left hfactor]

theorem decimal_le_iff : c * (x.commonFactors k).2 ≤ p * (x.commonFactors k).1 ↔
    (c : ℚ) * 10 ^ k ≤ p * x.quarter := by
  have hfactor : (0 : ℚ) < (x.commonFactors k).2 := Nat.cast_pos.2 (x.commonFactors_pos k).2
  have hten : (0 : ℚ) < 10 ^ k := zpow_pos (by norm_num) k
  rw [← Nat.cast_le (α := ℚ), ← mul_le_mul_iff_of_pos_right hten, position_mul_eq,
    decimal_mul_eq, mul_le_mul_iff_of_pos_left hfactor]

/-- A decimal is found to round to a double if it lies in the interval. -/
theorem roundsBack_iff : x.roundsBack c k = true ↔ x.Surrounds (c * 10 ^ k) := by
  rw [roundsBack, Surrounds]
  by_cases heven : x.significand % 2 = 0
  · simp only [if_pos heven, Bool.and_eq_true, decide_eq_true_eq, position_le_iff, decimal_le_iff]
  · simp only [if_neg heven, Bool.and_eq_true, decide_eq_true_eq, ← not_le, position_le_iff,
      decimal_le_iff]

end

/-! ## The search -/

variable {k : ℤ} {c : ℕ}

/-- What a grid gives rounds to the double. -/
theorem surrounds_gridPoint (h : x.gridPoint? k = some c) : x.Surrounds (c * 10 ^ k) := by
  rw [gridPoint?] at h
  simp only at h
  split at h
  · rename_i hlow hhigh
    split at h
    · cases h
      exact (roundsBack_iff x _).1 hlow
    · cases h
      exact (roundsBack_iff x _).1 hhigh
  · cases h
    exact (roundsBack_iff x _).1 ‹_›
  · cases h
    exact (roundsBack_iff x _).1 ‹_›
  · cases h

/-- A grid gives something if its points are so close that not both neighbours of the double can lie
outside the interval. -/
theorem exists_gridPoint (h : (x.commonFactors k).2 <
    (x.upperEnd - x.lowerEnd) * (x.commonFactors k).1) : ∃ c, x.gridPoint? k = some c := by
  obtain ⟨ha, hb⟩ := x.commonFactors_pos k
  obtain ⟨low, hlow⟩ :
      ∃ low, low = x.centre * (x.commonFactors k).1 / (x.commonFactors k).2 := ⟨_, rfl⟩
  have hbelow : low * (x.commonFactors k).2 ≤ x.centre * (x.commonFactors k).1 :=
    hlow ▸ Nat.div_mul_le_self _ _
  have habove : x.centre * (x.commonFactors k).1 < (low + 1) * (x.commonFactors k).2 := by
    rw [hlow, Nat.mul_comm _ (x.commonFactors k).2]
    exact Nat.lt_mul_div_succ _ hb
  have hlower : x.lowerEnd * (x.commonFactors k).1 ≤ x.centre * (x.commonFactors k).1 := by
    refine Nat.mul_le_mul_right _ ?_
    rw [lowerEnd, centre]
    split <;> omega
  have hupper : x.centre * (x.commonFactors k).1 < x.upperEnd * (x.commonFactors k).1 := by
    refine Nat.mul_lt_mul_of_pos_right ?_ ha
    rw [upperEnd, centre]
    omega
  rw [Nat.sub_mul] at h
  -- if both neighbours were outside, the gap between them would hold the whole interval
  have hone : x.roundsBack low k = true ∨ x.roundsBack (low + 1) k = true := by
    rw [Nat.add_mul, Nat.one_mul] at habove
    rw [roundsBack, roundsBack]
    by_cases heven : x.significand % 2 = 0
    · simp only [if_pos heven, Bool.and_eq_true, decide_eq_true_eq, Nat.add_mul, Nat.one_mul]
      omega
    · simp only [if_neg heven, Bool.and_eq_true, decide_eq_true_eq, Nat.add_mul, Nat.one_mul]
      omega
  rw [gridPoint?]
  simp only [← hlow]
  cases hfirst : x.roundsBack low k with
  | true => cases x.roundsBack (low + 1) k <;> simp
  | false =>
      rw [hfirst] at hone
      have hsecond := hone.resolve_left (by simp)
      rw [hsecond]
      simp

/-- Four hundred places bring every double other than zero above one. -/
theorem ten_pow_neg_le (hx : x.significand ≠ 0) :
    (10 : ℚ) ^ (-400 : ℤ) ≤ x.centre * x.quarter := by
  have hpow : (2 : ℚ) ^ 1300 ≤ 10 ^ 400 := by
    rw [show 1300 = 13 * 100 from rfl, show 400 = 4 * 100 from rfl, pow_mul, pow_mul]
    exact pow_le_pow_left₀ (by norm_num) (by norm_num) 100
  have hquarter : ((2 : ℚ) ^ 1300)⁻¹ ≤ x.quarter := by
    have hleast := x.canonical.2.1
    rw [← zpow_natCast, ← zpow_neg]
    exact zpow_le_zpow_right₀ (by norm_num) (by omega)
  have hcentre : (1 : ℚ) ≤ x.centre := by
    have : 1 ≤ x.centre := by
      rw [centre]
      omega
    exact_mod_cast this
  calc (10 : ℚ) ^ (-400 : ℤ) = (10 ^ 400)⁻¹ := zpow_neg _ _
    _ ≤ (2 ^ 1300)⁻¹ := inv_anti₀ (by positivity) hpow
    _ ≤ x.quarter := hquarter
    _ ≤ x.centre * x.quarter := le_mul_of_one_le_left x.quarter_pos.le hcentre

/-- A number has at least the value that its leading place counts. -/
theorem ten_pow_length_le {n : ℕ} (hn : 0 < n) : 10 ^ ((Numeral.ofNat n).length - 1) ≤ n := by
  rcases Nat.eq_zero_or_pos ((Numeral.ofNat n).length - 1) with h | h
  · rwa [h, Nat.pow_zero]
  · by_contra hlt
    have hlength := (Nat.length_toDigits_le_iff (by decide) h).2 (Nat.lt_of_not_le hlt)
    rw [← Numeral.ofNat] at hlength
    omega

/-- The leading digit counts no more than the double. -/
theorem ten_pow_leadingExponent_le (hx : x.significand ≠ 0) :
    (10 : ℚ) ^ x.leadingExponent ≤ x.centre * x.quarter := by
  obtain ⟨n, hn⟩ : ∃ n, n = x.centre * (x.commonFactors (-400)).1 / (x.commonFactors (-400)).2 :=
    ⟨_, rfl⟩
  have hfloor : n * (x.commonFactors (-400)).2 ≤ x.centre * (x.commonFactors (-400)).1 :=
    hn ▸ Nat.div_mul_le_self _ _
  rw [decimal_le_iff] at hfloor
  have hone : 1 * (x.commonFactors (-400)).2 ≤ x.centre * (x.commonFactors (-400)).1 := by
    rw [decimal_le_iff, Nat.cast_one, one_mul]
    exact ten_pow_neg_le hx
  rw [Nat.one_mul] at hone
  have hpos : 0 < n := hn ▸ Nat.div_pos hone (x.commonFactors_pos _).2
  have hdigits := ten_pow_length_le hpos
  have hleading : x.leadingExponent = ((Numeral.ofNat n).length - 1 : ℕ) + (-400 : ℤ) := by
    have := List.length_pos_iff.2 (Numeral.ofNat_ne_nil n)
    rw [leadingExponent]
    simp only [← hn]
    omega
  calc (10 : ℚ) ^ x.leadingExponent
      = ((10 ^ ((Numeral.ofNat n).length - 1) : ℕ) : ℚ) * 10 ^ (-400 : ℤ) := by
        rw [hleading, zpow_add₀ (by norm_num), zpow_natCast, Nat.cast_pow, Nat.cast_ofNat]
    _ ≤ n * 10 ^ (-400 : ℤ) :=
        mul_le_mul_of_nonneg_right (by exact_mod_cast hdigits) (zpow_pos (by norm_num) _).le
    _ ≤ x.centre * x.quarter := hfloor

/-- On the grid of seventeen digits the points are close enough. -/
theorem exists_seventeen_digits (hx : x.significand ≠ 0) :
    ∃ c, x.gridPoint? (x.leadingExponent - 16) = some c := by
  refine exists_gridPoint ?_
  have hwidth : x.centre < (x.upperEnd - x.lowerEnd) * 10 ^ 16 := by
    have hlt := x.significand_lt
    have hpow : Nat.pow 2 52 = 4503599627370496 := rfl
    rw [centre, upperEnd, lowerEnd, hpow]
    split <;> omega
  have hleading := ten_pow_leadingExponent_le hx
  have hgrid : (10 : ℚ) ^ (x.leadingExponent - 16) <
      (x.upperEnd - x.lowerEnd : ℕ) * x.quarter := by
    have hscaled : (10 : ℚ) ^ x.leadingExponent = 10 ^ (x.leadingExponent - 16) * 10 ^ 16 := by
      rw [← zpow_natCast, ← zpow_add₀ (by norm_num)]
      congr 1
      omega
    rw [hscaled] at hleading
    refine lt_of_mul_lt_mul_right (lt_of_le_of_lt hleading ?_) (show (0 : ℚ) ≤ 10 ^ 16 by norm_num)
    calc x.centre * x.quarter < ((x.upperEnd - x.lowerEnd) * 10 ^ 16 : ℕ) * x.quarter :=
          mul_lt_mul_of_pos_right (by exact_mod_cast hwidth) x.quarter_pos
      _ = (x.upperEnd - x.lowerEnd : ℕ) * x.quarter * 10 ^ 16 := by
          push_cast
          ring
  rw [← Nat.one_mul (x.commonFactors _).2, ← not_le, position_le_iff, not_le, Nat.cast_one,
    one_mul]
  exact hgrid

/-- The shortest decimal rounds to the double. -/
theorem surrounds_shortest (hx : x.significand ≠ 0) :
    x.Surrounds (x.shortest.coefficient * 10 ^ x.shortest.exponent) := by
  have hsearch : ∀ grids digits, 0 < grids → grids + digits = 18 →
      x.Surrounds ((shortestFrom grids digits x).coefficient *
        10 ^ (shortestFrom grids digits x).exponent) := by
    intro grids
    induction grids with
    | zero => exact fun _ hpos => absurd hpos (Nat.lt_irrefl 0)
    | succ grids ih =>
        intro digits _ hsum
        rw [shortestFrom]
        split
        · rename_i c hc
          exact surrounds_gridPoint hc
        · rename_i hnone
          rcases Nat.eq_zero_or_pos grids with rfl | hpos
          · obtain ⟨c, hc⟩ := exists_seventeen_digits hx
            have hlast : x.leadingExponent - digits + 1 = x.leadingExponent - 16 := by omega
            rw [hlast, hc] at hnone
            cases hnone
          · exact ih (digits + 1) hpos (by omega)
  exact hsearch 17 1 (by decide) rfl

/-! ## The decimal that is written -/

/-- The decimal of which the text of a double is made, its sign apart. -/
def decimal (x : Double) : ℚ :=
  if x.isZero then 0 else x.shortest.coefficient * 10 ^ x.shortest.exponent

theorem surrounds_decimal (x : Double) : x.Surrounds x.decimal := by
  by_cases hx : x.significand = 0
  · have hzero : x.isZero = true := decide_eq_true hx
    have hlower : x.lowerEnd = 0 := by
      rw [lowerEnd, hx, if_neg fun h => absurd h.1 (by decide)]
    have hquarter := x.quarter_pos
    rw [decimal, if_pos hzero, Surrounds, if_pos (by omega), hlower]
    refine ⟨by norm_num, by positivity⟩
  · have hzero : ¬ x.isZero = true := fun h => hx (of_decide_eq_true h)
    rw [decimal, if_neg hzero]
    exact surrounds_shortest hx

/-- Doubles of one sign differ in the decimals that are written for them. -/
theorem eq_of_decimal_eq (hsign : x.negative = y.negative) (h : x.decimal = y.decimal) : x = y := by
  obtain ⟨hsignificand, hexponent⟩ := x.surrounds_decimal.unique (h ▸ y.surrounds_decimal)
  cases x
  cases y
  simp only at hsign hsignificand hexponent
  subst hsign hsignificand hexponent
  rfl

end Agenda.Double
