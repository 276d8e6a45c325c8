/-
Days of the proleptic Gregorian calendar.

Days are counted from 1970-01-01. A year is taken to begin in March, so that the leap day comes
last: four hundred such years are 146097 days, and taking off whole centuries (three of the short
kind at most), whole four-year spans and whole years (three at most) leaves the day of the year,
from which month and day follow by one division with the constant 153/5, the mean length of a
month in each run of five. Going the other way the same terms are added up.
-/

set_option autoImplicit false

namespace Agenda

/-- A year, a month from 1 to 12 and a day from 1 on. -/
structure Date where
  year : Int
  month : Nat
  day : Nat
deriving DecidableEq

namespace Date

/-- Every fourth year is a leap year, except those of centuries that four hundred does not divide.
-/
def isLeapYear (year : Int) : Bool := year % 4 = 0 && (year % 100 ≠ 0 || year % 400 = 0)

/-- The number of days of a month. -/
def monthLength (year : Int) (month : Nat) : Nat :=
  if month = 2 then if isLeapYear year then 29 else 28
  else if month = 4 ∨ month = 6 ∨ month = 9 ∨ month = 11 then 30
  else 31

/-- The first and the last year there are. -/
def years : Int × Int := (-262143, 262142)

/-- Whether there is such a day. -/
def IsValid (d : Date) : Prop :=
  years.1 ≤ d.year ∧ d.year ≤ years.2 ∧ 1 ≤ d.month ∧ d.month ≤ 12 ∧
    1 ≤ d.day ∧ d.day ≤ monthLength d.year d.month

instance (d : Date) : Decidable d.IsValid := by unfold IsValid; infer_instance

/-! ## Counting days -/

/-- The days from 0000-03-01 to 1970-01-01. -/
def daysToEpoch : Int := 719468

/-- The days from the first of March to the first of a month, March being month 0. -/
def daysToMonth (m : Nat) : Nat := (153 * m + 2) / 5

/-- The number of a day, 1970-01-01 being day 0. -/
def toDays (d : Date) : Int :=
  let y := if d.month ≤ 2 then d.year - 1 else d.year
  let m := (d.month + 9) % 12
  365 * y + y / 4 - y / 100 + y / 400 + daysToMonth m + d.day - 1 - daysToEpoch

/-- The day with a number. -/
def ofDays (n : Int) : Date :=
  let n := n + daysToEpoch
  let r := (n % 146097).toNat
  let century := min (r / 36524) 3
  let r := r - 36524 * century
  let span := r / 1461
  let r := r % 1461
  let inSpan := min (r / 365) 3
  let dayOfYear := r - 365 * inSpan
  let y := 400 * (n / 146097) + 100 * century + 4 * span + inSpan
  let m := (5 * dayOfYear + 2) / 153
  let month := if m < 10 then m + 3 else m - 9
  { year := if month ≤ 2 then y + 1 else y
    month
    day := dayOfYear - daysToMonth m + 1 }

end Date

end Agenda
