/-
Reading the stamps of a calendar.

A stamp is eight digits, the letter T, six digits and the letter for UTC. It has no place for a
sign, so instants have stamps of that form, and are read from them, in plain years only. Nor does it
have one for a fraction, so what is read is the instant rounded down to its second.
-/
import Agenda.Proofs.Time.Spelling

set_option autoImplicit false

namespace Agenda

open Scan

/-- The form of a stamp: fixed widths and no separators, in UTC. -/
def Timestamp.compact : Scanner CivilTime := fun cs => do
  let (year, cs) ← number 4 4 cs
  let (month, cs) ← bounded 1 12 (number 2 2) cs
  let (day, cs) ← bounded 1 31 (number 2 2) cs
  let (_, cs) ← mark 'T' cs
  let (hour, cs) ← bounded 0 23 (number 2 2) cs
  let (minute, cs) ← bounded 0 59 (number 2 2) cs
  let (second, cs) ← bounded 0 60 (number 2 2) cs
  let (_, cs) ← mark 'Z' cs
  .ok (⟨⟨year, month, day⟩, hour, minute, second, 0, 0⟩, cs)

namespace Instant

variable {t : Instant}

/-- The instant without its fraction. A leap second stays one, because a stamp can show it as a
sixty-first second. -/
def wholeSecond (t : Instant) : Instant :=
  { t with
    nano := t.nano - t.nano % nanosPerSecond
    nano_lt := Nat.lt_of_le_of_lt (Nat.sub_le _ _) t.nano_lt
    leap := fun h => t.leap (Nat.le_trans h (Nat.sub_le _ _)) }

@[simp] theorem second_wholeSecond (t : Instant) : t.wholeSecond.second = t.second := rfl

theorem isLeap_wholeSecond (t : Instant) : t.wholeSecond.isLeap = t.isLeap := by
  rw [Bool.eq_iff_iff, isLeap_iff, isLeap_iff]
  simp only [wholeSecond, nanosPerSecond]
  omega

/-- With its fraction gone an instant is shown whole by a stamp. -/
theorem fraction_wholeSecond (t : Instant) : t.wholeSecond.fraction = 0 := by
  simp only [fraction, wholeSecond, nanosPerSecond]
  omega

/-- Outside a leap second nothing is left beside the second. -/
theorem nano_wholeSecond (h : t.isLeap = false) : t.wholeSecond.nano = 0 := by
  simp only [wholeSecond, Nat.mod_eq_of_lt (nano_lt_of_not_isLeap h), Nat.sub_self]

/-- A stamp, taken apart at the places where its form expects a new number or a letter. -/
theorem stamp_eq (t : Instant) : t.stamp = Date.yearText t.date.year ++
    (Numeral.padded 2 t.date.month ++ (Numeral.padded 2 t.date.day ++ 'T' ::
      (Numeral.padded 2 (t.secondOfDay / 3600) ++ (Numeral.padded 2 (t.secondOfDay / 60 % 60) ++
        (Numeral.padded 2 t.shownSecond ++ ['Z']))))) := by
  simp only [stamp, Date.text, clockText, shownSecond, List.append_assoc, List.nil_append]

/-- In a plain year each part of a stamp has the width that the form asks for, and a value that it
allows. -/
theorem compact_stamp (hplain : t.IsPlain) :
    Timestamp.compact t.stamp = .ok (t.civil 0, []) := by
  have hd := t.isValid_date
  have hyear : t.date.year.natAbs < 10 ^ 4 ∧ (t.date.year.natAbs : Int) = t.date.year := by
    have hbounds : 0 ≤ t.date.year ∧ t.date.year ≤ 9999 := hplain
    omega
  rw [stamp_eq, yearText_of_plain t.date.year hplain, Timestamp.compact,
    number_padded (by decide) (by decide) hyear.1]
  simp only [Result.ok_bind, mark_cons, hyear.2,
    bounded_padded hd.2.2.1 hd.2.2.2.1 (by decide),
    bounded_padded hd.2.2.2.2.1 (day_le_of_isValid hd) (by decide),
    bounded_padded (Nat.zero_le _) t.isClock.hour_le (by decide),
    bounded_padded (Nat.zero_le _) t.isClock.minute_le (by decide),
    bounded_padded (Nat.zero_le _) t.isClock.second_le (by decide)]
  rfl

/-- In a plain year the stamp is that of the instant without its fraction. -/
theorem readForm?_stamp (hplain : t.IsPlain) :
    Timestamp.readForm? Timestamp.compact t.stamp = some t.wholeSecond := by
  have hinstant := instant_civil t.second_wholeSecond t.isLeap_wholeSecond
  rw [fraction_wholeSecond] at hinstant
  rw [Timestamp.readForm?, compact_stamp hplain]
  simp only [hinstant]
  rfl

/-! ## The form of a stamp -/

/-- Eight digits, the letter T, six digits and the letter for UTC. -/
def IsStamp (text : List Char) : Prop :=
  ∃ day clock : List Char, text = day ++ 'T' :: (clock ++ ['Z']) ∧
    day.length = 8 ∧ clock.length = 6 ∧ ∀ c ∈ day ++ clock, Numeral.isDigit c = true

theorem isStamp_stamp (hplain : t.IsPlain) : IsStamp t.stamp := by
  have hd := t.isValid_date
  have hyear : t.date.year.natAbs < 10 ^ 4 := by
    have hbounds : 0 ≤ t.date.year ∧ t.date.year ≤ 9999 := hplain
    omega
  have hmonth := hd.2.2.2.1
  have hday := day_le_of_isValid hd
  have hhour := t.isClock.hour_le
  have hminute := t.isClock.minute_le
  have hsecond := t.isClock.second_le
  have hlength : ∀ n, n ≤ 60 → (Numeral.padded 2 n).length = 2 := fun n hn =>
    Numeral.length_padded (by decide) (by omega)
  refine ⟨Numeral.padded 4 t.date.year.natAbs ++ Numeral.padded 2 t.date.month ++
      Numeral.padded 2 t.date.day,
    Numeral.padded 2 (t.secondOfDay / 3600) ++ Numeral.padded 2 (t.secondOfDay / 60 % 60) ++
      Numeral.padded 2 t.shownSecond, ?_, ?_, ?_, ?_⟩
  · rw [stamp_eq, yearText_of_plain t.date.year hplain]
    simp only [List.append_assoc]
  · rw [List.length_append, List.length_append, Numeral.length_padded (by decide) hyear,
      hlength _ (by omega), hlength _ (by omega)]
  · rw [List.length_append, List.length_append, hlength _ (by omega), hlength _ (by omega),
      hlength _ hsecond]
  · intro c hc
    simp only [List.mem_append] at hc
    rcases hc with ((hc | hc) | hc) | (hc | hc) | hc <;> exact Numeral.isDigit_of_mem_padded hc

/-- The stamp of an instant has this form exactly in plain years. In others the year has a sign, and
more digits if it needs them. -/
theorem isStamp_stamp_iff : IsStamp t.stamp ↔ t.IsPlain := by
  refine ⟨fun hstamp => ?_, isStamp_stamp⟩
  obtain ⟨day, clock, htext, hlength, -, hdigits⟩ := hstamp
  by_contra hplain
  obtain ⟨c, rest, rfl⟩ := List.exists_cons_of_length_eq_add_one hlength
  -- a stamp begins with a digit, and in any other year there is a sign
  rw [stamp_eq, yearText_of_not_plain t.date.year hplain, List.cons_append, List.cons_append,
    List.cons.injEq] at htext
  have hdigit := hdigits c (by simp)
  rw [← htext.1] at hdigit
  split at hdigit <;> exact absurd hdigit (by decide)

/-! ## Seconds -/

/-- Seconds of plain years lie well within those that there are. So a day more or less, as zones
make it, does not lead out of range. -/
theorem second_bounds (hplain : t.IsPlain) :
    firstSecond + secondsPerDay ≤ t.second ∧ t.second + secondsPerDay ≤ lastSecond := by
  have hdays := toDays_bounds_of_isValid t.isValid_date hplain
  have hlt := t.secondOfDay_lt
  have hsecond := t.second_eq
  simp only [firstSecond, lastSecond, secondsPerDay] at hsecond ⊢
  omega

/-- Outside a leap second, time that is added moves the second and leaves the fraction alone. -/
theorem addSeconds?_eq_some_iff {stop : Instant} {seconds : Int} (hleap : t.isLeap = false) :
    t.addSeconds? seconds = some stop ↔ stop.second = t.second + seconds ∧ stop.nano = t.nano := by
  rw [addSeconds?, hleap, if_neg Bool.false_ne_true, ofParts?_eq_some_iff]

end Instant

end Agenda
