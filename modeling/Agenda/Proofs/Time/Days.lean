/-
Days and dates, there and back.

Taking a day number apart leaves a year that begins in March and the day of that year: four hundred
years are 146097 days, and the centuries, four-year spans and years taken off inside them leave at
most 365, the leap day, which only the last year of a span has, and the last span of a century only
in the last century. So every day number is that of the date it gives, that date exists, and its
year lies between the bounds as long as the day does.
-/
import Agenda.Time.Instant
import Mathlib.Tactic.IntervalCases

set_option autoImplicit false

namespace Agenda.Date

/-! ## Days of a year that begins in March -/

/-- The date of a day of a year that begins in March. -/
def ofMarch (year : Int) (dayOfYear : Nat) : Date :=
  let m := (5 * dayOfYear + 2) / 153
  let month := if m < 10 then m + 3 else m - 9
  { year := if month ≤ 2 then year + 1 else year
    month
    day := dayOfYear - daysToMonth m + 1 }

/-- The days before a year that begins in March, counted from the epoch. -/
def daysToYear (year : Int) : Int := 365 * year + year / 4 - year / 100 + year / 400 - daysToEpoch

/-- Only a year that ends in a leap day has a day 365. -/
def HasDay (year : Int) (dayOfYear : Nat) : Prop :=
  dayOfYear ≤ 364 ∨ dayOfYear = 365 ∧ isLeapYear (year + 1) = true

theorem HasDay.le {year : Int} {dayOfYear : Nat} (h : HasDay year dayOfYear) :
    dayOfYear ≤ 365 := by
  rcases h with h | h
  · omega
  · omega

/-- The number of the date is the number of the day. -/
theorem toDays_ofMarch {year : Int} {dayOfYear : Nat} (h : dayOfYear ≤ 365) :
    (ofMarch year dayOfYear).toDays = daysToYear year + dayOfYear := by
  have hm : (5 * dayOfYear + 2) / 153 ≤ 11 := by omega
  -- the month counted from March and the month of the year determine each other
  have hstart : daysToMonth ((5 * dayOfYear + 2) / 153) ≤ dayOfYear := by
    rw [daysToMonth]
    omega
  rw [ofMarch, toDays, daysToYear]
  by_cases hmonth : (5 * dayOfYear + 2) / 153 < 10
  · have hback : ((5 * dayOfYear + 2) / 153 + 3 + 9) % 12 = (5 * dayOfYear + 2) / 153 := by omega
    simp only [if_pos hmonth, hback]
    rw [if_neg (by omega), if_neg (by omega)]
    omega
  · have hback : ((5 * dayOfYear + 2) / 153 - 9 + 9) % 12 = (5 * dayOfYear + 2) / 153 := by omega
    simp only [if_neg hmonth, hback]
    rw [if_pos (by omega), if_pos (by omega)]
    omega

/-- The day lies in its month. -/
theorem day_ofMarch_le {year : Int} {dayOfYear : Nat} (h : HasDay year dayOfYear) :
    (ofMarch year dayOfYear).day ≤
      monthLength (ofMarch year dayOfYear).year (ofMarch year dayOfYear).month := by
  have hle := h.le
  have hm : (5 * dayOfYear + 2) / 153 ≤ 11 := by omega
  rw [ofMarch]
  generalize hmonth : (5 * dayOfYear + 2) / 153 = m at hm ⊢
  -- February is the last month; in the others the day of the year bounds the day
  rcases Nat.lt_or_eq_of_le hm with hm | rfl
  · interval_cases m
    all_goals
      simp only [daysToMonth, monthLength]
      norm_num
      omega
  · simp only [daysToMonth, monthLength]
    rcases h with h | ⟨h, hleap⟩
    · norm_num
      split <;> omega
    · norm_num [hleap]
      omega

theorem month_ofMarch (year : Int) {dayOfYear : Nat} (h : dayOfYear ≤ 365) :
    1 ≤ (ofMarch year dayOfYear).month ∧ (ofMarch year dayOfYear).month ≤ 12 := by
  have hm : (5 * dayOfYear + 2) / 153 ≤ 11 := by omega
  simp only [ofMarch]
  split <;> omega

/-! ## Taking a day number apart -/

/-- The days before a year, by its four hundreds, centuries, spans of four years and years. -/
theorem daysToYear_eq (quarters : Int) {century span inSpan : Nat} (hc : century ≤ 3)
    (hs : span ≤ 24) (hi : inSpan ≤ 3) :
    daysToYear (400 * quarters + 100 * century + 4 * span + inSpan) =
      146097 * quarters + 36524 * century + 1461 * span + 365 * inSpan - daysToEpoch := by
  have hfour : (400 * quarters + 100 * century + 4 * span + inSpan) / 4 =
      100 * quarters + 25 * century + span := by omega
  have hhundred : (400 * quarters + 100 * century + 4 * span + inSpan) / 100 =
      4 * quarters + century := by omega
  have hquarter : (400 * quarters + 100 * century + 4 * span + inSpan) / 400 = quarters := by omega
  rw [daysToYear, hfour, hhundred, hquarter]
  omega

/-- Every day number is a day of a year that begins in March. -/
theorem exists_ofDays_eq_ofMarch (n : Int) : ∃ year dayOfYear, HasDay year dayOfYear ∧
    n = daysToYear year + dayOfYear ∧ ofDays n = ofMarch year dayOfYear := by
  have hdays : ∃ r : Nat, r < 146097 ∧ (r : Int) = (n + daysToEpoch) % 146097 :=
    ⟨((n + daysToEpoch) % 146097).toNat, by omega, by omega⟩
  obtain ⟨r, hr, hrem⟩ := hdays
  -- whole centuries, then whole spans of four years, then whole years
  obtain ⟨century, hcentury⟩ : ∃ c, c = min (r / 36524) 3 := ⟨_, rfl⟩
  obtain ⟨span, hspan⟩ : ∃ s, s = (r - 36524 * century) / 1461 := ⟨_, rfl⟩
  obtain ⟨inSpan, hinSpan⟩ : ∃ i, i = min ((r - 36524 * century) % 1461 / 365) 3 := ⟨_, rfl⟩
  obtain ⟨dayOfYear, hday⟩ : ∃ k, k = (r - 36524 * century) % 1461 - 365 * inSpan := ⟨_, rfl⟩
  have hc : century ≤ 3 ∧ 36524 * century ≤ r ∧ r - 36524 * century ≤ 36524 ∧
      (century < 3 → r - 36524 * century < 36524) := by omega
  obtain ⟨hc3, hcr, hrest, hshort⟩ := hc
  have hs : span ≤ 24 := by omega
  have hi : inSpan ≤ 3 ∧ dayOfYear ≤ 365 ∧ (dayOfYear = 365 → inSpan = 3) := by omega
  have hsum : r = 36524 * century + 1461 * span + 365 * inSpan + dayOfYear := by omega
  refine ⟨400 * ((n + daysToEpoch) / 146097) + 100 * century + 4 * span + inSpan, dayOfYear,
    ?_, ?_, ?_⟩
  · rcases Nat.lt_or_eq_of_le hi.2.1 with hlt | heq
    · exact .inl (by omega)
    · refine .inr ⟨heq, ?_⟩
      -- a 366th day ends a span of four years, and if it ends a century too, then the fourth one
      have hlast : span = 24 → century = 3 := by omega
      rw [isLeapYear]
      simp only [Bool.and_eq_true, Bool.or_eq_true, decide_eq_true_eq]
      omega
  · rw [daysToYear_eq _ hc3 hs hi.1]
    omega
  · simp only [ofDays, ← hrem, Int.toNat_natCast, ← hcentury, ← hspan, ← hinSpan, ← hday]
    rfl

/-! ## What the date of a day number is -/

/-- Whether the month has such a day. -/
def IsInMonth (d : Date) : Prop :=
  1 ≤ d.month ∧ d.month ≤ 12 ∧ 1 ≤ d.day ∧ d.day ≤ monthLength d.year d.month

theorem IsValid.isInMonth {d : Date} (h : d.IsValid) : d.IsInMonth := h.2.2

/-- The date of a day number lies in its month, however far away the year is. -/
theorem isInMonth_ofDays (n : Int) : (ofDays n).IsInMonth := by
  obtain ⟨year, dayOfYear, hhas, -, hdate⟩ := exists_ofDays_eq_ofMarch n
  have hmonth := month_ofMarch year hhas.le
  rw [hdate]
  refine ⟨hmonth.1, hmonth.2, ?_, day_ofMarch_le hhas⟩
  simp only [ofMarch]
  omega

/-- A day number is that of its date. -/
theorem toDays_ofDays (n : Int) : (ofDays n).toDays = n := by
  obtain ⟨year, dayOfYear, hhas, hn, hdate⟩ := exists_ofDays_eq_ofMarch n
  rw [hdate, toDays_ofMarch hhas.le]
  exact hn.symm

/-- Later years begin later. -/
theorem daysToYear_mono {y y' : Int} (h : y ≤ y') : daysToYear y ≤ daysToYear y' := by
  refine monotone_int_of_le_succ (fun y => ?_) h
  rw [daysToYear, daysToYear]
  omega

/-- The first and the last day that instants can lie on. -/
def dayBounds : Int × Int := (-96465292, 95026236)

/-- Between these days the year lies between its bounds. The first of them is a first of January,
day 306 of a year that begins in March, and the last one is day 305. -/
theorem year_ofMarch_mem {year : Int} {dayOfYear : Nat} (hle : dayOfYear ≤ 365)
    (hfirst : dayBounds.1 ≤ daysToYear year + dayOfYear)
    (hlast : daysToYear year + dayOfYear ≤ dayBounds.2) :
    years.1 ≤ (ofMarch year dayOfYear).year ∧ (ofMarch year dayOfYear).year ≤ years.2 := by
  simp only [dayBounds] at hfirst hlast
  -- the years next to the outermost ones lie wholly outside the days, as later years begin later
  have hlow : -262144 ≤ year ∧ (year = -262144 → 306 ≤ dayOfYear) := by
    have hbefore : daysToYear (-262145) = -96465964 := by decide
    have hstart : daysToYear (-262144) = -96465598 := by decide
    constructor
    · by_contra hlt
      have := daysToYear_mono (show year ≤ -262145 by omega)
      omega
    · rintro rfl
      omega
  have hhigh : year ≤ 262142 ∧ (year = 262142 → dayOfYear ≤ 305) := by
    have hafter : daysToYear 262143 = 95026296 := by decide
    have hstart : daysToYear 262142 = 95025931 := by decide
    constructor
    · by_contra hlt
      have := daysToYear_mono (show 262143 ≤ year by omega)
      omega
    · rintro rfl
      omega
  simp only [years, ofMarch]
  split <;> split <;> omega

/-- Between these days the date exists. -/
theorem isValid_ofDays {n : Int} (hfirst : dayBounds.1 ≤ n) (hlast : n ≤ dayBounds.2) :
    (ofDays n).IsValid := by
  obtain ⟨year, dayOfYear, hhas, hn, hdate⟩ := exists_ofDays_eq_ofMarch n
  have hyear := year_ofMarch_mem hhas.le (hn ▸ hfirst) (hn ▸ hlast)
  rw [← hdate] at hyear
  exact ⟨hyear.1, hyear.2, isInMonth_ofDays n⟩

/-! ## What the day number of a date is -/

/-- A year ends where the next one begins. -/
theorem HasDay.lt_succ {year : Int} {dayOfYear : Nat} (h : HasDay year dayOfYear) :
    daysToYear year + dayOfYear < daysToYear (year + 1) := by
  rw [daysToYear, daysToYear]
  rcases h with h | ⟨h, hleap⟩
  · omega
  · rw [isLeapYear] at hleap
    simp only [Bool.and_eq_true, Bool.or_eq_true, decide_eq_true_eq] at hleap
    omega

/-- A day lies in one year only. -/
theorem HasDay.unique {y y' : Int} {k k' : Nat} (h : HasDay y k) (h' : HasDay y' k')
    (heq : daysToYear y + k = daysToYear y' + k') : y = y' ∧ k = k' := by
  have hlt := h.lt_succ
  have hlt' := h'.lt_succ
  rcases Int.lt_trichotomy y y' with hy | rfl | hy
  · have := daysToYear_mono (show y + 1 ≤ y' by omega)
    omega
  · exact ⟨rfl, by omega⟩
  · have := daysToYear_mono (show y' + 1 ≤ y by omega)
    omega

/-- The months divide the year up by its days. -/
theorem month_of_day {m dayOfYear : Nat} (hlow : daysToMonth m ≤ dayOfYear)
    (hhigh : dayOfYear < daysToMonth (m + 1)) : (5 * dayOfYear + 2) / 153 = m := by
  rw [daysToMonth] at hlow hhigh
  omega

/-- A month ends where the next one begins, but for February, which is the last one. -/
theorem daysToMonth_succ (year : Int) {month : Nat} (hlow : 1 ≤ month) (hhigh : month ≤ 12)
    (hne : month ≠ 2) : daysToMonth ((month + 9) % 12 + 1) =
      daysToMonth ((month + 9) % 12) + monthLength year month := by
  rw [monthLength, if_neg hne]
  simp only [daysToMonth]
  interval_cases month <;> simp at hne ⊢

/-- February is longest in a leap year, and then it ends with its year. -/
theorem monthLength_february (year : Int) :
    monthLength year 2 = if isLeapYear year then 29 else 28 := if_pos rfl

/-- Every day of a month is a day of a year that begins in March. -/
theorem exists_eq_ofMarch {d : Date} (h : d.IsInMonth) :
    ∃ year dayOfYear, HasDay year dayOfYear ∧ d = ofMarch year dayOfYear := by
  obtain ⟨year, month, day⟩ := d
  obtain ⟨hmonth, hmonth', hday, hday'⟩ := h
  simp only at hmonth hmonth' hday hday'
  have hlength : daysToMonth ((month + 9) % 12) + monthLength year month ≤
      daysToMonth ((month + 9) % 12 + 1) := by
    by_cases htwo : month = 2
    · subst htwo
      rw [monthLength_february, daysToMonth, daysToMonth]
      split <;> omega
    · rw [daysToMonth_succ year hmonth hmonth' htwo]
  obtain ⟨m, hm⟩ : ∃ m, m = (month + 9) % 12 := ⟨_, rfl⟩
  rw [← hm] at hlength
  have hindex : (5 * (daysToMonth m + day - 1) + 2) / 153 = m :=
    month_of_day (by omega) (by omega)
  have hback : (if m < 10 then m + 3 else m - 9) = month := by
    split <;> omega
  refine ⟨if month ≤ 2 then year - 1 else year, daysToMonth m + day - 1, ?_, ?_⟩
  -- February is the last month, and the only one whose last day depends on the year
  · rcases Nat.lt_or_ge m 11 with hlt | hge
    · refine .inl ?_
      have hlast : daysToMonth (m + 1) ≤ 337 := by
        rw [daysToMonth]
        omega
      omega
    · obtain rfl : month = 2 := by omega
      have hfirst : daysToMonth m = 337 := by
        rw [daysToMonth]
        omega
      rw [HasDay, hfirst, if_pos (Nat.le_refl 2), Int.sub_add_cancel]
      rw [monthLength_february] at hday'
      cases hleap : isLeapYear year with
      | true =>
          rw [hleap, if_pos rfl] at hday'
          simp only [and_true]
          omega
      | false =>
          rw [hleap, if_neg (by decide)] at hday'
          omega
  · rw [ofMarch]
    simp only [hindex, hback, mk.injEq]
    refine ⟨?_, trivial, by omega⟩
    split <;> omega

/-- A day of a month is the date of its day number. -/
theorem ofDays_toDays {d : Date} (h : d.IsInMonth) : ofDays d.toDays = d := by
  obtain ⟨year, dayOfYear, hhas, rfl⟩ := exists_eq_ofMarch h
  obtain ⟨year', dayOfYear', hhas', hn, hdate⟩ :=
    exists_ofDays_eq_ofMarch (ofMarch year dayOfYear).toDays
  rw [toDays_ofMarch hhas.le] at hn
  obtain ⟨rfl, rfl⟩ := hhas.unique hhas' hn
  exact hdate

/-! ## The day before -/

/-- The calendar day before: in the same month, at the end of the month before, or at the end of the
year before. -/
def dayBefore (d : Date) : Date :=
  if 1 < d.day then { d with day := d.day - 1 }
  else if 1 < d.month then ⟨d.year, d.month - 1, monthLength d.year (d.month - 1)⟩
  else ⟨d.year - 1, 12, 31⟩

theorem monthLength_pos (year : Int) (month : Nat) : 1 ≤ monthLength year month := by
  rw [monthLength]
  split
  · split <;> omega
  · split <;> omega

theorem IsInMonth.dayBefore {d : Date} (h : d.IsInMonth) : d.dayBefore.IsInMonth := by
  obtain ⟨year, month, day⟩ := d
  obtain ⟨hmonth, hmonth', hday, hday'⟩ := h
  simp only at hmonth hmonth' hday hday'
  rw [Date.dayBefore]
  split
  · rename_i hlater
    exact ⟨hmonth, hmonth', Nat.le_sub_one_of_lt hlater, Nat.le_trans (Nat.sub_le day 1) hday'⟩
  · split
    · rename_i hlater
      exact ⟨Nat.le_sub_one_of_lt hlater, Nat.le_trans (Nat.sub_le month 1) hmonth',
        monthLength_pos _ _, Nat.le_refl _⟩
    · exact ⟨Nat.le_add_left 1 11, Nat.le_refl 12, Nat.le_add_left 1 30, Nat.le_refl 31⟩

/-- The first of a month follows the last of the month before. In the year that begins in March the
first of March follows the leap day, if there is one. -/
theorem toDays_first (year : Int) {month : Nat} (hlow : 1 < month) (hhigh : month ≤ 12) :
    toDays ⟨year, month, 1⟩ =
      toDays ⟨year, month - 1, monthLength year (month - 1)⟩ + 1 := by
  by_cases hmarch : month = 3
  · subst hmarch
    rw [show 3 - 1 = 2 from rfl, monthLength_february]
    simp only [toDays, daysToMonth, isLeapYear]
    norm_num
    split <;> omega
  · have hnext := daysToMonth_succ year (show 1 ≤ month - 1 by omega) (by omega) (by omega)
    rw [show (month - 1 + 9) % 12 + 1 = (month + 9) % 12 by omega] at hnext
    simp only [toDays, hnext]
    split <;> split <;> omega

/-- The number of the day before is one less. -/
theorem toDays_dayBefore {d : Date} (h : d.IsInMonth) : d.dayBefore.toDays = d.toDays - 1 := by
  obtain ⟨year, month, day⟩ := d
  obtain ⟨hmonth, hmonth', hday, -⟩ := h
  simp only at hmonth hmonth' hday
  simp only [Date.dayBefore]
  split
  · simp only [toDays]
    omega
  · obtain rfl : day = 1 := by omega
    split
    · rename_i hlater
      rw [toDays_first year hlater hmonth']
      omega
    · obtain rfl : month = 1 := by omega
      simp only [toDays, daysToMonth]
      omega

/-- Counting back by one gives the calendar day before. -/
theorem ofDays_pred (n : Int) : ofDays (n - 1) = (ofDays n).dayBefore := by
  have h := isInMonth_ofDays n
  rw [← ofDays_toDays h.dayBefore, toDays_dayBefore h, toDays_ofDays]

/-- Among the days that instants can lie on only the first has none before it. -/
theorem isValid_dayBefore_iff {n : Int} (hfirst : dayBounds.1 ≤ n) (hlast : n ≤ dayBounds.2) :
    (ofDays n).dayBefore.IsValid ↔ dayBounds.1 < n := by
  rw [← ofDays_pred]
  refine ⟨fun h => ?_, fun h => isValid_ofDays (Int.le_sub_one_of_lt h) (by omega)⟩
  obtain rfl | hlt := hfirst.eq_or_lt
  · exact absurd h (by decide)
  · exact hlt

end Agenda.Date
