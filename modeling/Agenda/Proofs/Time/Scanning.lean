/-
What the scanners make of a numeral.

A form of a date and time is a sequence of scanners, so it reads a text as soon as each scanner
reads its piece of it and leaves the rest. The pieces of a written instant are numerals of a fixed
width, marks, and the letter for UTC; for each there is one statement of what a scanner makes of it
with anything behind it.
-/
import Agenda.Proofs.Result
import Agenda.Proofs.Text.Numeral
import Agenda.Time.Reader
import Agenda.Time.Writer
import Mathlib.Data.List.Basic

set_option autoImplicit false

namespace Agenda.Scan

open Numeral

variable {rest : List Char} {least most width n : Nat}

/-! ## Marks -/

@[simp] theorem mark_cons (m : Char) (rest : List Char) :
    mark m (m :: rest) = .ok ((), rest) := if_pos rfl

@[simp] theorem dateEnd_cons (rest : List Char) : dateEnd ('T' :: rest) = .ok ((), rest) := rfl

@[simp] theorem offsetOrZulu_cons (separator : Scanner Unit) (rest : List Char) :
    offsetOrZulu separator ('Z' :: rest) = .ok (0, rest) := rfl

/-! ## Numerals -/

/-- Digits are read as a number if there are not too few of them, and if no digit follows or there
are as many as may be read. -/
theorem number_append {digits : List Char} (hdigits : ∀ c ∈ digits, isDigit c = true)
    (hleast : least ≤ digits.length) (hmost : digits.length ≤ most)
    (hrest : digits.length = most ∨ Ends rest) :
    number least most (digits ++ rest) = .ok (value digits, rest) := by
  have htake : ((digits ++ rest).take most).takeWhile isDigit = digits := by
    rw [List.take_append, List.take_of_length_le hmost]
    refine takeWhile_append hdigits ?_
    rcases hrest with hlength | hends
    · rw [hlength, Nat.sub_self, List.take_zero]
      exact ends_nil
    · intro c hc
      refine hends c ?_
      rw [List.head?_take] at hc
      split at hc
      · cases hc
      · exact hc
  rw [number]
  simp only [htake]
  rw [if_neg (Nat.not_lt.2 hleast), List.drop_left]

/-- A numeral of the greatest width is read whatever follows. -/
theorem number_padded (hleast : least ≤ width) (hwidth : 0 < width) (hn : n < 10 ^ width) :
    number least width (padded width n ++ rest) = .ok (n, rest) := by
  have hlength := length_padded hwidth hn
  rw [number_append (fun c hc => isDigit_of_mem_padded hc) (by omega) (by omega) (.inl hlength),
    value_padded]

theorem bounded_eq_ok {low high : Nat} {scan : Scanner Nat} {cs : List Char}
    (h : scan cs = .ok (n, rest)) (hlow : low ≤ n) (hhigh : n ≤ high) :
    bounded low high scan cs = .ok (n, rest) := by
  rw [bounded, h, Result.ok_bind]
  exact if_pos ⟨hlow, hhigh⟩

/-- No blank is a digit. -/
theorem isBlank_of_isDigit {c : Char} (h : isDigit c = true) : isBlank c = false := by
  have hrange : 48 ≤ c.toNat ∧ c.toNat ≤ 57 := isDigit_iff.1 h
  simp only [isBlank, Bool.or_eq_false_iff, Bool.and_eq_false_iff, decide_eq_false_iff_not]
  omega

/-- Nothing is dropped before a numeral. -/
theorem dropBlanks_padded (width n : Nat) (rest : List Char) :
    dropBlanks (padded width n ++ rest) = padded width n ++ rest := by
  obtain ⟨c, cs, hcs, hc⟩ := exists_padded_eq_cons width n
  rw [hcs, List.cons_append, dropBlanks, List.dropWhile_cons, isBlank_of_isDigit hc,
    if_neg (by simp)]

theorem dropBlanks_cons_of_ne {c : Char} (h : isBlank c = false) (rest : List Char) :
    dropBlanks (c :: rest) = c :: rest := by
  rw [dropBlanks, List.dropWhile_cons, h, if_neg (by simp)]

/-- A number of two digits within bounds. -/
theorem bounded_padded {low high : Nat} (hlow : low ≤ n) (hhigh : n ≤ high) (hn : high < 100) :
    bounded low high (number 2 2) (padded 2 n ++ rest) = .ok (n, rest) :=
  bounded_eq_ok (number_padded (by decide) (by decide) (by omega)) hlow hhigh

/-- A loose number may have two digits as well. -/
theorem looseNumber_padded {low high : Nat} (hlow : low ≤ n) (hhigh : n ≤ high)
    (hn : high < 100) : looseNumber low high (padded 2 n ++ rest) = .ok (n, rest) := by
  rw [looseNumber, dropBlanks_padded]
  exact bounded_eq_ok (number_padded (by decide) (by decide) (by omega)) hlow hhigh

/-- Two digits of an offset. -/
theorem twoDigits_padded (hn : n < 100) (rest : List Char) :
    twoDigits (padded 2 n ++ rest) = .ok (n, rest) := by
  have hlength := length_padded (show 0 < 2 by decide) hn
  obtain ⟨a, b, hab⟩ := List.length_eq_two.1 hlength
  have ha : isDigit a = true := isDigit_of_mem_padded (hab ▸ List.mem_cons_self)
  have hb : isDigit b = true :=
    isDigit_of_mem_padded (hab ▸ List.mem_cons_of_mem _ List.mem_cons_self)
  have hvalue : (a.toNat - '0'.toNat) * 10 + (b.toNat - '0'.toNat) = n := by
    rw [← value_padded 2 n, hab]
    simp only [value, List.foldl_cons, List.foldl_nil, digit?_eq_some ha, digit?_eq_some hb,
      Option.getD_some, Nat.zero_mul, Nat.zero_add]
  rw [hab, List.cons_append, List.cons_append, List.nil_append, twoDigits, digit?_eq_some ha,
    digit?_eq_some hb, ← hvalue]

/-- A letter is no number. -/
theorem looseNumber_of_letter (low high : Nat) (rest : List Char) :
    looseNumber low high ('T' :: rest) = .error .invalid := rfl

/-! ## Fractions -/

/-- The digits of a fraction count the nanoseconds that they say. -/
theorem fraction?_append {digits : List Char} (hdigits : ∀ c ∈ digits, isDigit c = true)
    (hpos : 0 < digits.length) (hle : digits.length ≤ 9) (hrest : Ends rest) :
    fraction? ('.' :: digits ++ rest) =
      .ok (value digits * 10 ^ (9 - digits.length), rest) := by
  have hdrop : rest.dropWhile isDigit = rest := dropWhile_append_ends [] hrest
  rw [List.cons_append, fraction?, nanoseconds, number_append hdigits hpos hle (.inr hrest),
    Result.ok_bind]
  simp only [List.length_append, Nat.add_sub_cancel, hdrop]
  rfl

/-- So do those of a numeral with leading zeros. -/
theorem fraction?_padded (hwidth : 0 < width) (hwidth9 : width ≤ 9) (hn : n < 10 ^ width)
    (hrest : Ends rest) :
    fraction? ('.' :: padded width n ++ rest) = .ok (n * 10 ^ (9 - width), rest) := by
  have hlength := length_padded hwidth hn
  rw [fraction?_append (fun c hc => isDigit_of_mem_padded hc) (by omega) (by omega) hrest,
    value_padded, hlength]

/-! ## Years -/

theorem yearText_of_plain (year : Int)
    (h : Date.plainYears.1 ≤ year ∧ year ≤ Date.plainYears.2) :
    Date.yearText year = padded 4 year.natAbs := if_pos h

/-- Outside the plain years a sign comes first. -/
theorem yearText_of_not_plain (year : Int)
    (h : ¬ (Date.plainYears.1 ≤ year ∧ year ≤ Date.plainYears.2)) :
    Date.yearText year = (if year < 0 then '-' else '+') :: padded 4 year.natAbs := if_neg h

/-- After a sign a year may have any number of digits. -/
theorem number_signed_year (hrest : Ends rest) (n : Nat) :
    number 1 (padded 4 n ++ rest).length (padded 4 n ++ rest) = .ok (n, rest) := by
  have hpos : 0 < (padded 4 n).length := List.length_pos_iff.2 (padded_ne_nil 4 n)
  rw [number_append (fun c hc => isDigit_of_mem_padded hc) hpos, value_padded]
  · rw [List.length_append]
    omega
  · exact .inr hrest

/-- A year in the bounds of 32 bits is read back, with or without a sign. -/
theorem looseYear_yearText {year : Int} (hlow : -yearBound ≤ year) (hhigh : year < yearBound)
    (hrest : Ends rest) : looseYear (Date.yearText year ++ rest) = .ok (year, rest) := by
  have hbounds : -yearBound ≤ year ∧ year < yearBound := ⟨hlow, hhigh⟩
  by_cases hplain : Date.plainYears.1 ≤ year ∧ year ≤ Date.plainYears.2
  · have hyear : year.natAbs < 10 ^ 4 ∧ (year.natAbs : Int) = year := by
      simp only [Date.plainYears] at hplain
      omega
    have hnumber : number 1 4 (padded 4 year.natAbs ++ rest) = .ok (year.natAbs, rest) :=
      number_padded (by decide) (by decide) hyear.1
    -- four digits begin with no sign, and without a sign four digits are read at most
    obtain ⟨c, cs, hcs, hc⟩ := exists_padded_eq_cons 4 year.natAbs
    have hminus : c ≠ '-' := by
      rintro rfl
      exact absurd hc (by decide)
    have hplus : c ≠ '+' := by
      rintro rfl
      exact absurd hc (by decide)
    rw [yearText_of_plain year hplain, looseYear, dropBlanks_padded]
    rw [hcs, List.cons_append] at hnumber ⊢
    split
    · rename_i heq
      exact absurd (List.cons.inj heq).1 hminus
    · rename_i heq
      exact absurd (List.cons.inj heq).1 hplus
    · rw [hnumber]
      simp only [Result.ok_bind, hyear.2]
      rw [if_pos hbounds]
  -- behind a sign all the digits are read, however many there are
  · have hnumber := number_signed_year hrest year.natAbs
    rw [yearText_of_not_plain year hplain, List.cons_append]
    rcases Int.lt_or_le year 0 with hneg | hpos
    · have hyear : -(year.natAbs : Int) = year := by omega
      rw [if_pos hneg, looseYear, dropBlanks_cons_of_ne (by decide)]
      simp only [hnumber, Result.ok_bind, hyear]
      rw [if_pos hbounds]
    · have hyear : (year.natAbs : Int) = year := by omega
      rw [if_neg (by omega), looseYear, dropBlanks_cons_of_ne (by decide)]
      simp only [hnumber, Result.ok_bind, hyear]
      rw [if_pos hbounds]

/-- A year with a sign has no four digits to begin with. -/
theorem number_of_not_plain (year : Int)
    (h : ¬ (Date.plainYears.1 ≤ year ∧ year ≤ Date.plainYears.2)) (rest : List Char) :
    ∃ e, number 4 4 (Date.yearText year ++ rest) = .error e := by
  have hsign : isDigit (if year < 0 then '-' else '+') = false := by
    split <;> rfl
  rw [yearText_of_not_plain year h, List.cons_append, number]
  simp only [List.take_succ_cons, List.takeWhile_cons, hsign]
  rw [if_pos (by simp)]
  exact ⟨_, rfl⟩

/-! ## Dates -/

theorem day_le_of_isValid {d : Date} (h : d.IsValid) : d.day ≤ 31 := by
  refine Nat.le_trans h.2.2.2.2.2 ?_
  rw [Date.monthLength]
  split
  · split <;> omega
  · split <;> omega

/-- Plain years lie well within those that dates can have. -/
theorem toDays_bounds_of_isValid {d : Date} (h : d.IsValid)
    (hplain : 0 ≤ d.year ∧ d.year ≤ 9999) : -1000000 ≤ d.toDays ∧ d.toDays ≤ 4000000 := by
  have hday := day_le_of_isValid h
  have hmonth : Date.daysToMonth ((d.month + 9) % 12) ≤ 400 := by
    rw [Date.daysToMonth]
    omega
  simp only [Date.toDays, Date.daysToEpoch]
  split <;> omega

theorem yearBound_of_isValid {d : Date} (h : d.IsValid) :
    -yearBound ≤ d.year ∧ d.year < yearBound := by
  have hlow := h.1
  have hhigh := h.2.1
  simp only [Date.years, yearBound] at hlow hhigh ⊢
  omega

theorem text_append (d : Date) (rest : List Char) :
    d.text ['-'] ++ rest = Date.yearText d.year ++ '-' ::
      (padded 2 d.month ++ '-' :: (padded 2 d.day ++ rest)) := by
  simp only [Date.text, List.append_assoc, List.cons_append, List.nil_append]

/-- A date in loose numbers is read whatever follows. -/
theorem looseDate_text {d : Date} (h : d.IsValid) (rest : List Char) :
    Timestamp.looseDate (d.text ['-'] ++ rest) = .ok (d, rest) := by
  have hyear := yearBound_of_isValid h
  rw [text_append, Timestamp.looseDate, looseYear_yearText hyear.1 hyear.2 (ends_cons rfl)]
  simp only [Result.ok_bind, mark_cons, looseNumber_padded h.2.2.1 h.2.2.2.1 (by decide),
    looseNumber_padded h.2.2.2.2.1 (day_le_of_isValid h) (by decide)]

/-! ## Times of day -/

/-- A time of day that clocks can show, second 60 being a leap second. -/
structure IsClock (hour minute second : Nat) : Prop where
  hour_le : hour ≤ 23
  minute_le : minute ≤ 59
  second_le : second ≤ 60

/-- A time of day with colons. -/
def clockText (hour minute second : Nat) : List Char :=
  padded 2 hour ++ ':' :: (padded 2 minute ++ ':' :: padded 2 second)

section

variable {hour minute second nano : Nat} {rest' : List Char}

theorem clockText_append (hour minute second : Nat) (rest : List Char) :
    clockText hour minute second ++ rest =
      padded 2 hour ++ ':' :: (padded 2 minute ++ ':' :: (padded 2 second ++ rest)) := by
  simp only [clockText, List.append_assoc, List.cons_append]

/-- A time of day in loose numbers is read with the fraction that follows. -/
theorem looseClock_text (d : Date) (h : IsClock hour minute second)
    (hfraction : fraction? rest = .ok (nano, rest')) :
    Timestamp.looseClock d (clockText hour minute second ++ rest) =
      .ok (⟨d, hour, minute, second, nano, 0⟩, rest') := by
  rw [clockText_append, Timestamp.looseClock]
  simp only [Result.ok_bind, mark_cons, looseNumber_padded (Nat.zero_le _) h.hour_le (by decide),
    looseNumber_padded (Nat.zero_le _) h.minute_le (by decide),
    looseNumber_padded (Nat.zero_le _) h.second_le (by decide), hfraction]

/-- The form of RFC 3339 reads a date in a plain year, a time of day and a fraction, and then wants
an offset. -/
theorem internet_text {d : Date} (hd : d.IsValid)
    (hplain : Date.plainYears.1 ≤ d.year ∧ d.year ≤ Date.plainYears.2) {separator : Char}
    (hseparator : isDateEnd separator = true) (h : IsClock hour minute second)
    (hfraction : fraction? rest = .ok (nano, rest')) :
    Timestamp.internet (d.text ['-'] ++ separator :: (clockText hour minute second ++ rest)) =
      (do
        let (offset, cs) ← offsetOrZulu (mark ':') rest'
        .ok (⟨d, hour, minute, second, nano, offset⟩, cs)) := by
  have hyear : d.year.natAbs < 10 ^ 4 ∧ (d.year.natAbs : Int) = d.year := by
    simp only [Date.plainYears] at hplain
    omega
  have hend : ∀ cs, dateEnd (separator :: cs) = .ok ((), cs) := fun _ => if_pos hseparator
  rw [text_append, clockText_append, yearText_of_plain d.year hplain, Timestamp.internet,
    number_padded (by decide) (by decide) hyear.1]
  simp only [Result.ok_bind, mark_cons, hend,
    bounded_padded hd.2.2.1 hd.2.2.2.1 (by decide),
    bounded_padded hd.2.2.2.2.1 (day_le_of_isValid hd) (by decide),
    bounded_padded (Nat.zero_le _) h.hour_le (by decide),
    bounded_padded (Nat.zero_le _) h.minute_le (by decide),
    bounded_padded (Nat.zero_le _) h.second_le (by decide), hfraction, hyear.2]

end

/-! ## Blanks around a text -/

/-- Nothing is trimmed from a text that neither begins nor ends with a blank. -/
theorem trimBlanks_eq_self {cs : List Char} (hfront : ∀ c ∈ cs.head?, isBlank c = false)
    (hback : ∀ c ∈ cs.getLast?, isBlank c = false) : trimBlanks cs = cs := by
  have hdrop : ∀ {ds : List Char}, (∀ c ∈ ds.head?, isBlank c = false) → dropBlanks ds = ds := by
    intro ds hds
    cases ds with
    | nil => rfl
    | cons d ds => exact dropBlanks_cons_of_ne (hds d rfl) ds
  have hreverse : ∀ c ∈ cs.reverse.head?, isBlank c = false := by
    rw [List.head?_reverse]
    exact hback
  rw [trimBlanks, hdrop hfront, hdrop hreverse, List.reverse_reverse]

/-- A text may end with digits. -/
theorem getLast?_append_digits {digits : List Char} (hne : digits ≠ [])
    (hdigits : ∀ c ∈ digits, isDigit c = true) (front : List Char) :
    ∀ c ∈ (front ++ digits).getLast?, isBlank c = false := by
  intro c hc
  rw [List.getLast?_append_of_ne_nil front hne] at hc
  exact isBlank_of_isDigit (hdigits c (List.mem_of_mem_getLast? hc))

/-- A year begins with a digit or a sign. -/
theorem head?_yearText (year : Int) (rest : List Char) :
    ∀ c ∈ (Date.yearText year ++ rest).head?, isBlank c = false := by
  intro c hc
  by_cases hplain : Date.plainYears.1 ≤ year ∧ year ≤ Date.plainYears.2
  · obtain ⟨d, ds, hds, hd⟩ := exists_padded_eq_cons 4 year.natAbs
    rw [yearText_of_plain year hplain, hds] at hc
    cases hc
    exact isBlank_of_isDigit hd
  · rw [yearText_of_not_plain year hplain] at hc
    cases hc
    split <;> rfl

end Agenda.Scan
