/-
Written instants, read back.

A written instant shows a civil time: the date, the time of day with second 60 for a leap second,
and as many digits of a fraction as the form has. That civil time denotes the instant again, cut to
the digits that were written, because a day number is that of its date and the seconds of a day are
those of its hours, minutes and seconds.

Two readers are asked for that civil time. The one for converted documents takes every year. The one
for documents takes a plain year only: a signed year fits none of the forms that end in the letter
for UTC, so an instant in such a year is written in a text that no document may hold.
-/
import Agenda.Data
import Agenda.Proofs.Time.Days
import Agenda.Proofs.Time.Scanning

set_option autoImplicit false

namespace Agenda

open Scan

theorem Instant.ofParts?_eq_some_iff {second : Int} {nano : Nat} {t : Instant} :
    Instant.ofParts? second nano = some t ↔ t.second = second ∧ t.nano = nano := by
  rw [ofParts?]
  constructor
  · intro h
    split at h
    · cases h
      exact ⟨rfl, rfl⟩
    · cases h
  · rintro ⟨rfl, rfl⟩
    rw [dif_pos ⟨t.first_le, t.le_last, t.nano_lt, t.leap⟩]

/-- What a civil time denotes, by its seconds and its nanoseconds. -/
theorem CivilTime.instant_eq_ok {c : CivilTime} {u : Instant} (hdate : c.date.IsValid)
    (hoffset : (c.offset.natAbs : Int) < secondsPerDay)
    (hsecond : c.date.toDays * secondsPerDay + c.hour * 3600 + c.minute * 60 +
      (if c.second = 60 then 59 else c.second : Nat) - c.offset = u.second)
    (hnano : (if c.second = 60 then c.nano + nanosPerSecond else c.nano) = u.nano) :
    c.instant = .ok u := by
  have hparts : Instant.ofParts? u.second u.nano = some u :=
    Instant.ofParts?_eq_some_iff.2 ⟨rfl, rfl⟩
  rw [CivilTime.instant, if_neg (not_not_intro hdate), if_neg (Int.not_le.2 hoffset)]
  simp only [hsecond, hnano, hparts]

namespace Instant

variable {t u : Instant}

/-! ## Components -/

/-- Whether the year is written without a sign. -/
def IsPlain (t : Instant) : Prop :=
  Date.plainYears.1 ≤ t.year ∧ t.year ≤ Date.plainYears.2

instance (t : Instant) : Decidable t.IsPlain := by unfold IsPlain; infer_instance

theorem ext_parts (hsecond : t.second = u.second) (hnano : t.nano = u.nano) : t = u := by
  cases t
  cases u
  simp only at hsecond hnano
  subst hsecond hnano
  rfl

theorem isLeap_iff : t.isLeap = true ↔ nanosPerSecond ≤ t.nano := by
  rw [isLeap, decide_eq_true_iff]

theorem nano_lt_of_not_isLeap (h : t.isLeap = false) : t.nano < nanosPerSecond := by
  rw [← Nat.not_le, ← isLeap_iff, h]
  exact Bool.false_ne_true

/-- The day exists. -/
theorem isValid_date (t : Instant) : t.date.IsValid := by
  have hfirst := t.first_le
  have hlast := t.le_last
  rw [firstSecond] at hfirst
  rw [lastSecond] at hlast
  refine Date.isValid_ofDays ?_ ?_
  · rw [dayNumber, secondsPerDay, Date.dayBounds]
    omega
  · rw [dayNumber, secondsPerDay, Date.dayBounds]
    omega

/-- A day has as many seconds as it has hours, minutes and seconds in them. -/
theorem second_eq (t : Instant) : t.second =
    t.date.toDays * secondsPerDay + (t.secondOfDay / 3600 : Nat) * 3600 +
      (t.secondOfDay / 60 % 60 : Nat) * 60 + (t.secondOfDay % 60 : Nat) := by
  rw [date, Date.toDays_ofDays, dayNumber, secondOfDay, secondsPerDay]
  omega

theorem secondOfDay_lt (t : Instant) : t.secondOfDay < 86400 := by
  rw [secondOfDay, secondsPerDay]
  omega

/-- A leap second lies on a second 59. -/
theorem secondOfDay_of_isLeap (h : t.isLeap = true) : t.secondOfDay % 60 = 59 := by
  have hsecond := t.leap (isLeap_iff.1 h)
  rw [secondOfDay, secondsPerDay]
  omega

/-! ## The civil time that a text shows -/

/-- The second that is shown. -/
def shownSecond (t : Instant) : Nat := t.secondOfDay % 60 + if t.isLeap then 1 else 0

/-- The civil time of an instant, with some number of nanoseconds. -/
def civil (t : Instant) (nano : Nat) : CivilTime :=
  ⟨t.date, t.secondOfDay / 3600, t.secondOfDay / 60 % 60, t.shownSecond, nano, 0⟩

theorem shownSecond_le (t : Instant) : t.shownSecond ≤ 60 := by
  rw [shownSecond]
  split <;> omega

/-- Second 60 is shown exactly for a leap second. -/
theorem shownSecond_eq_60_iff : t.shownSecond = 60 ↔ t.isLeap = true := by
  rw [shownSecond]
  constructor
  · intro h
    split at h
    · assumption
    · omega
  · intro h
    rw [if_pos h, secondOfDay_of_isLeap h]

/-- The civil time with the nanoseconds of `u` denotes `u`, if `u` differs from the instant in its
fraction only. -/
theorem instant_civil (hsecond : u.second = t.second) (hleap : u.isLeap = t.isLeap) :
    (t.civil u.fraction).instant = .ok u := by
  have hbase : t.date.toDays * secondsPerDay + (t.secondOfDay / 3600 : Nat) * 3600 +
      (t.secondOfDay / 60 % 60 : Nat) * 60 +
      (if t.shownSecond = 60 then 59 else t.shownSecond : Nat) - 0 = u.second := by
    rw [hsecond, t.second_eq]
    cases hl : t.isLeap with
    | true =>
        have hlast := secondOfDay_of_isLeap hl
        rw [if_pos (shownSecond_eq_60_iff.2 hl)]
        omega
    | false =>
        have hshown : t.shownSecond = t.secondOfDay % 60 := by
          rw [shownSecond, hl]
          rfl
        rw [if_neg (by omega), hshown]
        omega
  -- a leap second is read as second 59, with nanoseconds that reach into the next one
  have hnano : (if t.shownSecond = 60 then u.fraction + nanosPerSecond else u.fraction) =
      u.nano := by
    have hlt := u.nano_lt
    rw [fraction]
    rw [nanosPerSecond] at hlt ⊢
    cases hl : t.isLeap with
    | true =>
        have hge := isLeap_iff.1 (hleap.trans hl)
        rw [nanosPerSecond] at hge
        rw [if_pos (shownSecond_eq_60_iff.2 hl)]
        omega
    | false =>
        have hlt := nano_lt_of_not_isLeap (hleap.trans hl)
        rw [nanosPerSecond] at hlt
        rw [if_neg (fun h => by rw [shownSecond_eq_60_iff, hl] at h; cases h)]
        omega
  exact CivilTime.instant_eq_ok t.isValid_date (show (0 : Int) < 86400 by omega) hbase hnano

/-! ## Reading the pieces of a text -/

theorem withFraction_eq (t : Instant) (fractionText : List Char) :
    t.withFraction fractionText = t.date.text ['-'] ++ 'T' ::
      (Scan.clockText (t.secondOfDay / 3600) (t.secondOfDay / 60 % 60) t.shownSecond ++
        (fractionText ++ ['Z'])) := by
  simp only [withFraction, clockText, Scan.clockText, shownSecond, List.append_assoc,
    List.cons_append, List.nil_append]

theorem isClock (t : Instant) :
    IsClock (t.secondOfDay / 3600) (t.secondOfDay / 60 % 60) t.shownSecond where
  hour_le := by
    have := t.secondOfDay_lt
    omega
  minute_le := by omega
  second_le := t.shownSecond_le

section

variable {fractionText : List Char} {nano : Nat}

/-- The form of RFC 3339 reads a plain year, and then everything else. -/
theorem internet_withFraction (hplain : t.IsPlain)
    (hfraction : fraction? (fractionText ++ ['Z']) = .ok (nano, ['Z'])) :
    Timestamp.internet (t.withFraction fractionText) = .ok (t.civil nano, []) := by
  rw [withFraction_eq, internet_text t.isValid_date hplain rfl t.isClock hfraction]
  rfl

/-- That form takes no signed year. -/
theorem internet_of_not_isPlain (h : ¬ t.IsPlain) (fractionText : List Char) :
    ∃ e, Timestamp.internet (t.withFraction fractionText) = .error e := by
  rw [withFraction_eq, text_append, Timestamp.internet]
  obtain ⟨e, he⟩ := number_of_not_plain t.date.year h _
  rw [he]
  exact ⟨e, rfl⟩

/-- The form for converted documents reads any year. -/
theorem lenient_withFraction
    (hfraction : fraction? (fractionText ++ ['Z']) = .ok (nano, ['Z'])) :
    lenient (t.withFraction fractionText) = .ok (t.civil nano, []) := by
  have hd := t.isValid_date
  have hyear := yearBound_of_isValid hd
  have hzulu : lenientOffset (dropBlanks ['Z']) = .ok (0, []) := rfl
  rw [withFraction_eq, text_append, clockText_append, lenient,
    looseYear_yearText hyear.1 hyear.2 (Numeral.ends_cons rfl)]
  simp only [Result.ok_bind, dropBlanks_cons_of_ne (c := '-') rfl,
    dropBlanks_cons_of_ne (c := ':') rfl, mark_cons, dateEnd_cons,
    looseNumber_padded hd.2.2.1 hd.2.2.2.1 (by decide),
    looseNumber_padded hd.2.2.2.2.1 (day_le_of_isValid hd) (by decide),
    looseNumber_padded (Nat.zero_le _) t.isClock.hour_le (by decide),
    looseNumber_padded (Nat.zero_le _) t.isClock.minute_le (by decide),
    looseNumber_padded (Nat.zero_le _) t.isClock.second_le (by decide),
    hfraction, hzulu]
  rfl

/-- The form without an offset stops before the letter for UTC. -/
theorem joined_withFraction (hfraction : fraction? (fractionText ++ ['Z']) = .ok (nano, ['Z'])) :
    Timestamp.joined (t.withFraction fractionText) = .ok (t.civil nano, ['Z']) := by
  rw [withFraction_eq, Timestamp.joined, looseDate_text t.isValid_date]
  simp only [Result.ok_bind, mark_cons]
  exact looseClock_text t.date t.isClock hfraction

/-- Of the forms of a document only that of RFC 3339 takes the letter for UTC. -/
theorem readForm?_withFraction
    (hfraction : fraction? (fractionText ++ ['Z']) = .ok (nano, ['Z'])) :
    Timestamp.forms.findSome? (Timestamp.readForm? · (t.withFraction fractionText)) =
      Timestamp.readForm? Timestamp.internet (t.withFraction fractionText) := by
  have hjoined := joined_withFraction (t := t) hfraction
  -- the other forms miss an offset, leave the letter, or meet the T where they want a blank
  have hoffset : Timestamp.readForm? Timestamp.joinedWithOffset (t.withFraction fractionText) =
      none := by
    rw [Timestamp.readForm?, Timestamp.joinedWithOffset, hjoined]
    rfl
  have hplain : Timestamp.readForm? Timestamp.joined (t.withFraction fractionText) = none := by
    rw [Timestamp.readForm?, hjoined]
  have hspaced : Timestamp.readForm? Timestamp.spaced (t.withFraction fractionText) = none := by
    rw [withFraction_eq, Timestamp.readForm?, Timestamp.spaced, looseDate_text t.isValid_date]
    simp only [Result.ok_bind, Result.error_bind, dropBlanks_cons_of_ne (c := 'T') rfl,
      Timestamp.looseClock, looseNumber_of_letter]
  have hdateOnly : Timestamp.readForm? Timestamp.dateOnly (t.withFraction fractionText) = none := by
    rw [withFraction_eq, Timestamp.readForm?, Timestamp.dateOnly, looseDate_text t.isValid_date]
    rfl
  simp only [Timestamp.forms, List.findSome?_cons, hoffset, hplain, hspaced, hdateOnly,
    List.findSome?_nil]
  split <;> simp [*]

/-- A text begins with a digit or a sign and ends with a letter, so nothing is trimmed. -/
theorem trimBlanks_withFraction (t : Instant) (fractionText : List Char) :
    trimBlanks (t.withFraction fractionText) = t.withFraction fractionText := by
  refine trimBlanks_eq_self ?_ ?_
  · rw [withFraction_eq, text_append]
    exact head?_yearText _ _
  · intro c hc
    simp only [withFraction, List.getLast?_append, List.getLast?_cons,
      Option.some_or, Option.getD_some, Option.mem_def, Option.some.injEq] at hc
    rw [← hc]
    rfl

end

/-! ## The two written forms -/

/-- The instant without what lies below its millisecond. -/
def wholeMillis (t : Instant) : Instant :=
  { t with
    nano := t.nano - t.nano % nanosPerMilli
    nano_lt := t.wholeMillis_nano_lt
    leap := t.wholeMillis_leap }

@[simp] theorem wholeMillis_wholeMillis (t : Instant) :
    t.wholeMillis.wholeMillis = t.wholeMillis := by
  refine ext_parts rfl ?_
  simp only [wholeMillis, nanosPerMilli]
  omega

theorem isLeap_wholeMillis (t : Instant) : t.wholeMillis.isLeap = t.isLeap := by
  rw [Bool.eq_iff_iff, isLeap_iff, isLeap_iff]
  simp only [wholeMillis, nanosPerSecond, nanosPerMilli]
  omega

/-- The canonical text shows the whole milliseconds. -/
theorem fraction?_canonical (t : Instant) :
    fraction? ('.' :: Numeral.padded 3 (t.fraction / 1000000) ++ ['Z']) =
      .ok (t.wholeMillis.fraction, ['Z']) := by
  have hlt : t.fraction / 1000000 < 10 ^ 3 := by
    rw [fraction, nanosPerSecond]
    omega
  have hvalue : t.fraction / 1000000 * 10 ^ (9 - 3) = t.wholeMillis.fraction := by
    simp only [fraction, wholeMillis, nanosPerSecond, nanosPerMilli]
    omega
  rw [fraction?_padded (by decide) (by decide) hlt (Numeral.ends_cons rfl), hvalue]

/-- The exact text shows the whole fraction. -/
theorem fraction?_exact (t : Instant) :
    fraction? ((if t.fraction = 0 then []
      else if t.fraction % 1000000 = 0 then '.' :: Numeral.padded 3 (t.fraction / 1000000)
      else if t.fraction % 1000 = 0 then '.' :: Numeral.padded 6 (t.fraction / 1000)
      else '.' :: Numeral.padded 9 t.fraction) ++ ['Z']) = .ok (t.fraction, ['Z']) := by
  have hlt : t.fraction < 1000000000 := by
    rw [fraction, nanosPerSecond]
    omega
  split
  · rename_i hzero
    rw [hzero]
    rfl
  · split
    · have hvalue : t.fraction / 1000000 * 10 ^ (9 - 3) = t.fraction := by omega
      rw [fraction?_padded (by decide) (by decide) (by omega) (Numeral.ends_cons rfl), hvalue]
    · split
      · have hvalue : t.fraction / 1000 * 10 ^ (9 - 6) = t.fraction := by omega
        rw [fraction?_padded (by decide) (by decide) (by omega) (Numeral.ends_cons rfl), hvalue]
      · rw [fraction?_padded (by decide) (by decide) (by omega) (Numeral.ends_cons rfl)]
        simp

/-! ## Cutting to the millisecond -/

theorem year_eq_of_second (h : u.second = t.second) : u.year = t.year := by
  rw [year, year, date, date, dayNumber, dayNumber, h]

/-- The last second lies in no plain year. -/
theorem not_isPlain_of_last (h : t.second = lastSecond) : ¬ t.IsPlain := by
  have hyear : t.year = 262142 := by
    rw [year, date, dayNumber, h]
    decide
  simp only [IsPlain, hyear, Date.plainYears]
  omega

theorem truncate_of_isPlain (h : t.IsPlain) : t.truncate = t.wholeMillis := by
  rw [truncate, if_neg fun hlast => not_isPlain_of_last hlast.1 h]
  rfl

@[simp] theorem second_truncate (t : Instant) : t.truncate.second = t.second := by
  rw [truncate]
  split <;> rfl

theorem isPlain_truncate_iff : t.truncate.IsPlain ↔ t.IsPlain := by
  rw [IsPlain, IsPlain, year_eq_of_second t.second_truncate]

/-- What has no part of a millisecond is left alone. -/
theorem truncate_wholeMillis (t : Instant) : t.wholeMillis.truncate = t.wholeMillis := by
  rw [truncate]
  split
  · rfl
  · refine ext_parts rfl ?_
    simp only [wholeMillis, nanosPerMilli]
    omega

/-- Cutting twice is cutting once. -/
@[simp] theorem truncate_truncate (t : Instant) : t.truncate.truncate = t.truncate := by
  -- a leap second in the very last second is left as it is, twice over
  by_cases hlast : t.second = lastSecond ∧ nanosPerSecond ≤ t.nano
  · have ht : t.truncate = t := by rw [truncate, if_pos hlast]
    rw [ht, ht]
  · have ht : t.truncate = t.wholeMillis := by
      rw [truncate, if_neg hlast]
      rfl
    rw [ht, truncate_wholeMillis]

end Instant

/-! ## Round trips -/

section

variable {t u : Instant} {fractionText : List Char}

/-- A document may hold a written instant exactly if its year is plain. -/
theorem Timestamp.read?_withFraction (hsecond : u.second = t.second)
    (hleap : u.isLeap = t.isLeap)
    (hfraction : fraction? (fractionText ++ ['Z']) = .ok (u.fraction, ['Z'])) :
    Timestamp.read? (String.ofList (t.withFraction fractionText)) =
      if t.IsPlain then some u.truncate else none := by
  rw [Timestamp.read?, String.toList_ofList, Instant.trimBlanks_withFraction,
    Instant.readForm?_withFraction hfraction, Timestamp.readForm?]
  by_cases hplain : t.IsPlain
  · rw [Instant.internet_withFraction hplain hfraction, if_pos hplain]
    simp only [Instant.instant_civil hsecond hleap, Result.toOption_ok, Option.map_some]
  · obtain ⟨e, he⟩ := Instant.internet_of_not_isPlain hplain fractionText
    rw [if_neg hplain, he]
    rfl

/-- The canonical text of an instant is read as the instant cut to the millisecond. -/
theorem Timestamp.read?_spell (t : Instant) :
    Timestamp.read? (Data.spell t) = if t.IsPlain then some t.truncate else none := by
  have hsecond : t.wholeMillis.second = t.second := rfl
  rw [Data.spell, Instant.canonical,
    Timestamp.read?_withFraction hsecond t.isLeap_wholeMillis t.fraction?_canonical]
  split
  · rename_i hplain
    rw [Instant.truncate_wholeMillis, Instant.truncate_of_isPlain hplain]
  · rfl

/-- So is the exact text. -/
theorem Timestamp.read?_exact (t : Instant) :
    Timestamp.read? (String.ofList t.exact) = if t.IsPlain then some t.truncate else none :=
  Timestamp.read?_withFraction rfl rfl t.fraction?_exact

/-! ## The canonical text -/

/-- The canonical text shows nothing of what lies below the millisecond. -/
theorem Instant.canonical_wholeMillis (t : Instant) : t.wholeMillis.canonical = t.canonical := by
  have hdate : t.wholeMillis.date = t.date := rfl
  have hsecond : t.wholeMillis.secondOfDay = t.secondOfDay := rfl
  have hmillis : t.wholeMillis.fraction / 1000000 = t.fraction / 1000000 := by
    simp only [fraction, wholeMillis, nanosPerSecond, nanosPerMilli]
    omega
  simp only [canonical, withFraction, clockText, hdate, hsecond, hmillis, isLeap_wholeMillis]

/-- Cutting to the millisecond changes no canonical text. -/
theorem Instant.spell_truncate (t : Instant) : Data.spell t.truncate = Data.spell t := by
  rw [truncate]
  split
  · rfl
  · show Data.spell t.wholeMillis = Data.spell t
    rw [Data.spell, Data.spell, canonical_wholeMillis]

/-- The canonical text keeps whole milliseconds and nothing else of an instant: cutting to them
changes neither the text nor what is cut already, and what a document reads from the text is the
instant so cut if its year has four digits without a sign, and nothing in any other year. -/
theorem Instant.canonical_text (t : Instant) :
    Data.spell t.truncate = Data.spell t ∧ t.truncate.truncate = t.truncate ∧
      Timestamp.read? (Data.spell t) =
        if 0 ≤ t.year ∧ t.year ≤ 9999 then some t.truncate else none :=
  ⟨t.spell_truncate, t.truncate_truncate, Timestamp.read?_spell t⟩

/-- A converted document may hold every instant in its canonical text. -/
theorem Instant.ofText_spell (t : Instant) : Instant.ofText (Data.spell t) = .ok t.wholeMillis := by
  rw [Instant.ofText, Data.spell, String.toList_ofList, Instant.canonical,
    Instant.lenient_withFraction t.fraction?_canonical, Result.ok_bind]
  exact Instant.instant_civil rfl t.isLeap_wholeMillis

/-- In its exact text nothing of an instant is lost. -/
theorem Instant.ofText_exact (t : Instant) : Instant.ofText (String.ofList t.exact) = .ok t := by
  rw [Instant.ofText, String.toList_ofList, Instant.exact,
    Instant.lenient_withFraction t.fraction?_exact, Result.ok_bind]
  exact Instant.instant_civil rfl rfl

end

end Agenda
