/-
One moment in all the forms that a document may use.

Clocks show a day and a time of day, and how many minutes they are ahead of UTC is written behind
it. Clocks of UTC show that moment too, on the same day or on a day next to it. Either time may be
written, the first with its offset and the second with the letter for UTC or with nothing, and the
reader tries its forms in a fixed order; so for each text it is shown which forms pass it by and
which one takes it. What they take are civil times of one instant, because taking minutes from a
count of minutes and asking for day and hour afterwards loses nothing.
-/
import Agenda.Proofs.Time.Spelling

set_option autoImplicit false

namespace Agenda

open Scan Numeral

/-! ## What clocks show -/

/-- A day and a time of day as clocks show them, with the digits of a fraction of the second. -/
structure WallTime where
  date : Date
  hour : Nat
  minute : Nat
  second : Nat
  digits : List Char

/-- How far clocks are from UTC: by less than a day, and in whole minutes. -/
structure WallTime.Offset where
  negative : Bool
  minutes : Nat
  lt_day : minutes < 1440

namespace WallTime

/-- Whether clocks can show this: a day that exists, second 60 being a leap second, and a fraction
of at most nine digits, or none. -/
structure IsValid (w : WallTime) : Prop where
  date : w.date.IsValid
  clock : IsClock w.hour w.minute w.second
  isDigit : ∀ c ∈ w.digits, isDigit c = true
  length_le : w.digits.length ≤ 9

/-- Whether the year is written without a sign. -/
def IsPlain (w : WallTime) : Prop := 0 ≤ w.date.year ∧ w.date.year ≤ 9999

instance (w : WallTime) : Decidable w.IsPlain := by unfold IsPlain; infer_instance

/-- The minutes that these clocks have counted since they showed the beginning of 1970. -/
def minutes (w : WallTime) : Int := w.date.toDays * 1440 + w.hour * 60 + w.minute

/-- The nanoseconds that the digits of the fraction say. -/
def nano (w : WallTime) : Nat := value w.digits * 10 ^ (9 - w.digits.length)

/-- The minutes by which clocks are ahead of UTC. -/
def Offset.ahead (o : Offset) : Int := if o.negative then -o.minutes else o.minutes

/-- What clocks show at the same moment that are so many minutes behind. -/
def behind (w : WallTime) (ahead : Int) : WallTime :=
  let m := w.minutes - ahead
  { w with
    date := Date.ofDays (m / 1440)
    hour := (m % 1440 / 60).toNat
    minute := (m % 60).toNat }

/-- The beginning of the day. -/
def midnight (w : WallTime) : WallTime := ⟨w.date, 0, 0, 0, []⟩

/-! ## How it is written -/

/-- A point and the digits, if there are any. -/
def fractionText : List Char → List Char
  | [] => []
  | digits => '.' :: digits

/-- The day, the time of day and the fraction, joined by a character. -/
def text (joint : Char) (w : WallTime) : List Char :=
  w.date.text ['-'] ++ joint :: (clockText w.hour w.minute w.second ++ fractionText w.digits)

/-- A sign, two digits for the hours and two for the minutes, with a separator between them. -/
def Offset.text (separator : List Char) (o : Offset) : List Char :=
  (if o.negative then '-' else '+') ::
    (padded 2 (o.minutes / 60) ++ (separator ++ padded 2 (o.minutes % 60)))

/-- The texts of a moment: with the offset after the time that is shown, with or without a colon in
it; and for the time that clocks of UTC show, with the letter for UTC and with nothing behind it. -/
def spellings (w : WallTime) (o : Offset) : List String :=
  [String.ofList (w.text 'T' ++ o.text [':']),
    String.ofList (w.text 'T' ++ o.text []),
    String.ofList ((w.behind o.ahead).text 'T' ++ ['Z']),
    String.ofList ((w.behind o.ahead).text 'T'),
    String.ofList ((w.behind o.ahead).text ' ')]

variable {w : WallTime} {o : Offset}

theorem Offset.ahead_lt (o : Offset) : -1440 < o.ahead ∧ o.ahead < 1440 := by
  have := o.lt_day
  rw [ahead]
  split <;> omega

/-! ## The moment -/

theorem toDays_bounds (hw : w.IsValid) (hplain : w.IsPlain) :
    -1000000 ≤ w.date.toDays ∧ w.date.toDays ≤ 4000000 :=
  toDays_bounds_of_isValid hw.date hplain

theorem minutes_behind (w : WallTime) (ahead : Int) :
    (w.behind ahead).minutes = w.minutes - ahead := by
  rw [minutes, behind]
  simp only [Date.toDays_ofDays]
  omega

/-- What clocks of UTC show is a time that clocks can show. -/
theorem isValid_behind (hw : w.IsValid) (hplain : w.IsPlain) (o : Offset) :
    (w.behind o.ahead).IsValid where
  date := by
    have hdays := toDays_bounds hw hplain
    have hahead := o.ahead_lt
    have hhour := hw.clock.hour_le
    have hminute := hw.clock.minute_le
    refine Date.isValid_ofDays ?_ ?_
    · rw [minutes, Date.dayBounds]
      omega
    · rw [minutes, Date.dayBounds]
      omega
  clock :=
    { hour_le := by
        simp only [behind]
        omega
      minute_le := by
        simp only [behind]
        omega
      second_le := hw.clock.second_le }
  isDigit := hw.isDigit
  length_le := hw.length_le

theorem isValid_midnight (hw : w.IsValid) : w.midnight.IsValid where
  date := hw.date
  clock := ⟨Nat.zero_le _, Nat.zero_le _, Nat.zero_le _⟩
  isDigit := by simp [midnight]
  length_le := Nat.zero_le _

theorem nano_lt (hw : w.IsValid) : w.nano < 1000000000 := by
  have hlt : value w.digits < 10 ^ w.digits.length := by
    have := valueFrom_lt hw.isDigit 0
    rwa [Nat.zero_add, Nat.one_mul] at this
  have hsum : w.digits.length + (9 - w.digits.length) = 9 := by
    have := hw.length_le
    omega
  calc w.nano < 10 ^ w.digits.length * 10 ^ (9 - w.digits.length) :=
        Nat.mul_lt_mul_of_pos_right hlt (Nat.pow_pos (by decide))
    _ = 1000000000 := by rw [← Nat.pow_add, hsum]

/-- What a text says that shows this time and an offset in seconds. -/
def civil (w : WallTime) (offset : Int) : CivilTime :=
  ⟨w.date, w.hour, w.minute, w.second, w.nano, offset⟩

/-- It is a moment: the time that is shown less the offset, with second 60 on top of second 59. -/
theorem exists_instant (hw : w.IsValid) (hplain : w.IsPlain) {ahead : Int}
    (hahead : -1440 < ahead ∧ ahead < 1440) :
    ∃ u : Instant, (w.civil (ahead * 60)).instant = .ok u ∧
      u.second = w.minutes * 60 + min w.second 59 - ahead * 60 ∧
      u.nano = (if w.second = 60 then 1000000000 else 0) + w.nano := by
  have hdays := toDays_bounds hw hplain
  have hnano := nano_lt hw
  have hclock := hw.clock
  have hhour := hclock.hour_le
  have hminute := hclock.minute_le
  have hsecond := hclock.second_le
  have hlow : Instant.firstSecond ≤ w.minutes * 60 + min w.second 59 - ahead * 60 := by
    rw [Instant.firstSecond, minutes]
    omega
  have hhigh : w.minutes * 60 + min w.second 59 - ahead * 60 ≤ Instant.lastSecond := by
    rw [Instant.lastSecond, minutes]
    omega
  have hlt : (if w.second = 60 then 1000000000 else 0) + w.nano < 2 * nanosPerSecond := by
    rw [nanosPerSecond]
    split <;> omega
  -- only second 60 makes up a whole second of nanoseconds, and it counts from second 59
  have hleap : nanosPerSecond ≤ (if w.second = 60 then 1000000000 else 0) + w.nano →
      (w.minutes * 60 + min w.second 59 - ahead * 60) % 60 = 59 := by
    rw [nanosPerSecond]
    split <;> omega
  have hbase : (if w.second = 60 then 59 else w.second) = min w.second 59 := by
    split <;> omega
  have hfraction : (if w.second = 60 then w.nano + nanosPerSecond else w.nano) =
      (if w.second = 60 then 1000000000 else 0) + w.nano := by
    by_cases h : w.second = 60
    · rw [if_pos h, if_pos h, nanosPerSecond, Nat.add_comm]
    · rw [if_neg h, if_neg h, Nat.zero_add]
  refine ⟨⟨_, _, hlow, hhigh, hlt, hleap⟩, ?_, rfl, rfl⟩
  refine CivilTime.instant_eq_ok hw.date ?_ ?_ hfraction
  · simp only [civil, secondsPerDay]
    omega
  · show w.date.toDays * 86400 + w.hour * 3600 + w.minute * 60 +
      (if w.second = 60 then 59 else w.second : Nat) - ahead * 60 =
        w.minutes * 60 + min w.second 59 - ahead * 60
    rw [hbase, minutes]
    omega

/-- Cut to the millisecond the moment keeps its second, and the whole milliseconds of its fraction.
-/
theorem truncate_of_eq (hw : w.IsValid) (hplain : w.IsPlain) {ahead : Int}
    (hahead : -1440 < ahead ∧ ahead < 1440) {u : Instant}
    (hsecond : u.second = w.minutes * 60 + min w.second 59 - ahead * 60)
    (hnano : u.nano = (if w.second = 60 then 1000000000 else 0) + w.nano) :
    u.truncate.second = u.second ∧
      u.truncate.nano =
        (if w.second = 60 then 1000000000 else 0) + w.nano / 1000000 * 1000000 := by
  have hdays := toDays_bounds hw hplain
  have hhour := hw.clock.hour_le
  have hminute := hw.clock.minute_le
  have hlast : u.second ≠ Instant.lastSecond := by
    rw [hsecond, Instant.lastSecond, minutes]
    omega
  rw [Instant.truncate, if_neg fun h => hlast h.1]
  refine ⟨rfl, ?_⟩
  simp only [hnano, Instant.nanosPerMilli]
  split <;> omega

/-! ## What the forms make of a text -/

/-- What can stand behind a fraction, and behind a second without one. -/
def Closes (rest : List Char) : Prop := ∀ c ∈ rest.head?, Numeral.isDigit c = false ∧ c ≠ '.'

theorem closes_nil : Closes [] := by simp [Closes]

theorem closes_zulu : Closes ['Z'] := by simp [Closes]; decide

theorem Offset.closes_text (o : Offset) (separator : List Char) : Closes (o.text separator) := by
  intro c hc
  rw [text] at hc
  cases hc
  split <;> decide

theorem text_append (joint : Char) (w : WallTime) (rest : List Char) :
    w.text joint ++ rest = w.date.text ['-'] ++ joint ::
      (clockText w.hour w.minute w.second ++ (fractionText w.digits ++ rest)) := by
  simp only [text, List.append_assoc, List.cons_append]

/-- The fraction is read as its nanoseconds. -/
theorem fraction?_text (hw : w.IsValid) {rest : List Char} (hrest : Closes rest) :
    fraction? (fractionText w.digits ++ rest) = .ok (w.nano, rest) := by
  obtain ⟨date, hour, minute, second, digits⟩ := w
  cases digits with
  | nil =>
      have hnano : nano ⟨date, hour, minute, second, []⟩ = 0 := Nat.zero_mul _
      rw [fractionText, List.nil_append, hnano, fraction?]
      rintro rest' rfl
      exact (hrest '.' rfl).2 rfl
  | cons c digits =>
      rw [fractionText, fraction?_append hw.isDigit (Nat.succ_pos _) hw.length_le
        fun c hc => (hrest c hc).1]
      · rfl
      · exact List.cons_ne_nil _ _

/-- The form of RFC 3339 wants an offset behind a time in a plain year. -/
theorem internet_text (hw : w.IsValid) (hplain : w.IsPlain) {joint : Char}
    (hjoint : isDateEnd joint = true) {rest : List Char} (hrest : Closes rest) :
    Timestamp.internet (w.text joint ++ rest) =
      (do
        let (offset, cs) ← offsetOrZulu (mark ':') rest
        .ok (w.civil offset, cs)) := by
  rw [text_append, Scan.internet_text hw.date hplain hjoint hw.clock (fraction?_text hw hrest)]
  rfl

/-- The form with a `T` leaves what is behind the time. -/
theorem joined_text (hw : w.IsValid) {rest : List Char} (hrest : Closes rest) :
    Timestamp.joined (w.text 'T' ++ rest) = .ok (w.civil 0, rest) := by
  rw [text_append, Timestamp.joined, looseDate_text hw.date]
  simp only [Result.ok_bind, mark_cons]
  exact looseClock_text w.date hw.clock (fraction?_text hw hrest)

/-- It wants a `T`. -/
theorem joined_blank (hw : w.IsValid) :
    Timestamp.joined (w.text ' ') = .error .invalid := by
  rw [text, Timestamp.joined, looseDate_text hw.date]
  rfl

/-- The form with blanks takes one as well. -/
theorem spaced_text (hw : w.IsValid) : Timestamp.spaced (w.text ' ') = .ok (w.civil 0, []) := by
  have hdrop : ∀ rest, dropBlanks (' ' :: (clockText w.hour w.minute w.second ++ rest)) =
      clockText w.hour w.minute w.second ++ rest := by
    intro rest
    rw [clockText_append]
    exact dropBlanks_padded 2 w.hour _
  rw [← List.append_nil (w.text ' '), text_append, Timestamp.spaced, looseDate_text hw.date]
  simp only [Result.ok_bind, hdrop]
  exact looseClock_text w.date hw.clock (fraction?_text hw closes_nil)

/-- An offset is read if its separator is. -/
theorem Offset.offset_text (o : Offset) {separator : Scanner Unit} {marks : List Char}
    (hseparator : separator (marks ++ padded 2 (o.minutes % 60)) =
      .ok ((), padded 2 (o.minutes % 60))) :
    offset separator (o.text marks) = .ok (o.ahead * 60, []) := by
  have hday := o.lt_day
  have hhours : ∀ rest, twoDigits (padded 2 (o.minutes / 60) ++ rest) =
      .ok (o.minutes / 60, rest) := twoDigits_padded (by omega)
  have hminutes : bounded 0 59 twoDigits (padded 2 (o.minutes % 60)) =
      .ok (o.minutes % 60, []) := by
    refine bounded_eq_ok ?_ (Nat.zero_le _) (by omega)
    rw [← List.append_nil (padded 2 _), twoDigits_padded (by omega)]
  have hsign : offsetSign (o.text marks) =
      .ok (o.negative, padded 2 (o.minutes / 60) ++ (marks ++ padded 2 (o.minutes % 60))) := by
    rw [text]
    cases o.negative <;> rfl
  rw [offset, hsign]
  simp only [Result.ok_bind, hhours, hseparator, hminutes]
  congr 2
  rw [ahead]
  split <;> omega

theorem Offset.offsetOrZulu_text (o : Offset) (separator : Scanner Unit) (marks : List Char) :
    offsetOrZulu separator (o.text marks) = offset separator (o.text marks) := by
  rw [text]
  cases o.negative <;> rfl

/-- Without a colon it is no offset of RFC 3339. -/
theorem Offset.offset_text_nil (o : Offset) :
    offset (mark ':') (o.text []) = .error .invalid := by
  have hday := o.lt_day
  have hhours : ∀ rest, twoDigits (padded 2 (o.minutes / 60) ++ rest) =
      .ok (o.minutes / 60, rest) := twoDigits_padded (by omega)
  have hsign : offsetSign (o.text []) =
      .ok (o.negative, padded 2 (o.minutes / 60) ++ padded 2 (o.minutes % 60)) := by
    rw [text]
    cases o.negative <;> rfl
  have hmark : mark ':' (padded 2 (o.minutes % 60)) = .error .invalid := by
    obtain ⟨c, cs, hcs, hc⟩ := exists_padded_eq_cons 2 (o.minutes % 60)
    rw [hcs]
    refine if_neg ?_
    rintro rfl
    exact absurd hc (by decide)
  rw [offset, hsign]
  simp only [Result.ok_bind, hhours, hmark, Result.error_bind]

/-! ## Reading a text -/

/-- Every text ends with a digit, or with what stands behind it. -/
theorem getLast?_text (hw : w.IsValid) (joint : Char) :
    ∀ c ∈ (w.text joint).getLast?, isBlank c = false := by
  obtain ⟨date, hour, minute, second, digits⟩ := w
  cases digits with
  | nil =>
      have htext : text joint ⟨date, hour, minute, second, []⟩ =
          (date.text ['-'] ++ joint :: (padded 2 hour ++ ':' :: (padded 2 minute ++ [':']))) ++
            padded 2 second := by
        simp only [text, clockText, fractionText, List.append_assoc, List.cons_append,
          List.append_nil, List.nil_append]
      rw [htext]
      exact getLast?_append_digits (padded_ne_nil 2 second)
        (fun c hc => isDigit_of_mem_padded hc) _
  | cons c digits =>
      have htext : text joint ⟨date, hour, minute, second, c :: digits⟩ =
          (date.text ['-'] ++ joint :: (clockText hour minute second ++ ['.'])) ++
            (c :: digits) := by
        simp only [text, fractionText, List.append_assoc, List.cons_append, List.nil_append]
      rw [htext]
      exact getLast?_append_digits (List.cons_ne_nil c digits) hw.isDigit _

theorem Offset.getLast?_text (o : Offset) (marks front : List Char) :
    ∀ c ∈ (front ++ o.text marks).getLast?, isBlank c = false := by
  have htext : front ++ o.text marks =
      (front ++ (if o.negative then '-' else '+') :: (padded 2 (o.minutes / 60) ++ marks)) ++
        padded 2 (o.minutes % 60) := by
    simp only [text, List.append_assoc, List.cons_append]
  rw [htext]
  exact getLast?_append_digits (padded_ne_nil 2 _) (fun c hc => isDigit_of_mem_padded hc) _

/-- Nothing is trimmed from a text, so the forms are tried on the text as it is. -/
theorem read?_text (w : WallTime) (joint : Char) (rest : List Char)
    (hlast : ∀ c ∈ (w.text joint ++ rest).getLast?, isBlank c = false) :
    Timestamp.read? (String.ofList (w.text joint ++ rest)) =
      (Timestamp.forms.findSome? (Timestamp.readForm? · (w.text joint ++ rest))).map
        Instant.truncate := by
  have hfront : ∀ c ∈ (w.text joint ++ rest).head?, isBlank c = false := by
    rw [text_append, Scan.text_append]
    exact head?_yearText _ _
  rw [Timestamp.read?, String.toList_ofList, trimBlanks_eq_self hfront hlast]

variable {u : Instant}

theorem readForm?_eq_some {form : Scanner CivilTime} {cs : List Char} {c : CivilTime}
    (hform : form cs = .ok (c, [])) (hu : c.instant = .ok u) :
    Timestamp.readForm? form cs = some u := by
  rw [Timestamp.readForm?, hform]
  simp only [hu, Result.toOption_ok]

/-- RFC 3339: the first form takes it. -/
theorem read?_colon (hw : w.IsValid) (hplain : w.IsPlain)
    (hu : (w.civil (o.ahead * 60)).instant = .ok u) :
    Timestamp.read? (String.ofList (w.text 'T' ++ o.text [':'])) = some u.truncate := by
  have hinternet : Timestamp.internet (w.text 'T' ++ o.text [':']) =
      .ok (w.civil (o.ahead * 60), []) := by
    rw [internet_text hw hplain rfl (o.closes_text _), o.offsetOrZulu_text,
      o.offset_text (mark_cons ':' _)]
    rfl
  rw [read?_text w 'T' _ (o.getLast?_text _ _)]
  simp only [Timestamp.forms, List.findSome?_cons, readForm?_eq_some hinternet hu, Option.map_some]

/-- Without a colon the first form misses it, and the second one takes the offset. -/
theorem read?_joinedWithOffset (hw : w.IsValid) (hplain : w.IsPlain)
    (hu : (w.civil (o.ahead * 60)).instant = .ok u) :
    Timestamp.read? (String.ofList (w.text 'T' ++ o.text [])) = some u.truncate := by
  have hinternet : Timestamp.readForm? Timestamp.internet (w.text 'T' ++ o.text []) = none := by
    rw [Timestamp.readForm?, internet_text hw hplain rfl (o.closes_text _), o.offsetOrZulu_text,
      o.offset_text_nil]
    rfl
  have hblanks : dropBlanks (o.text []) = o.text [] := by
    rw [Offset.text]
    cases o.negative <;> rfl
  have hseparator : colonsAndBlanks (padded 2 (o.minutes % 60)) =
      .ok ((), padded 2 (o.minutes % 60)) := by
    obtain ⟨c, cs, hcs, hc⟩ := exists_padded_eq_cons 2 (o.minutes % 60)
    have hcolon : c ≠ ':' := by
      rintro rfl
      exact absurd hc (by decide)
    rw [hcs, colonsAndBlanks, List.dropWhile_cons, isBlank_of_isDigit hc,
      if_neg (by simp [hcolon])]
  have hoffset : offset colonsAndBlanks (o.text []) = .ok (o.ahead * 60, []) :=
    o.offset_text hseparator
  have hjoined : Timestamp.joinedWithOffset (w.text 'T' ++ o.text []) =
      .ok (w.civil (o.ahead * 60), []) := by
    rw [Timestamp.joinedWithOffset, joined_text hw (o.closes_text _)]
    simp only [Result.ok_bind, hblanks, hoffset]
    rfl
  rw [read?_text w 'T' _ (o.getLast?_text _ _)]
  simp only [Timestamp.forms, List.findSome?_cons, hinternet, readForm?_eq_some hjoined hu,
    Option.map_some]

/-- The letter for UTC is an offset of RFC 3339. -/
theorem read?_zulu (hw : w.IsValid) (hplain : w.IsPlain) (hu : (w.civil 0).instant = .ok u) :
    Timestamp.read? (String.ofList (w.text 'T' ++ ['Z'])) = some u.truncate := by
  have hinternet : Timestamp.internet (w.text 'T' ++ ['Z']) = .ok (w.civil 0, []) := by
    rw [internet_text hw hplain rfl closes_zulu]
    rfl
  have hlast : ∀ c ∈ (w.text 'T' ++ ['Z']).getLast?, isBlank c = false := by
    rw [List.getLast?_concat]
    rintro c ⟨⟩
    rfl
  rw [read?_text w 'T' _ hlast]
  simp only [Timestamp.forms, List.findSome?_cons, readForm?_eq_some hinternet hu, Option.map_some]

/-- With nothing behind the time the two forms with an offset miss it. -/
theorem readForm?_of_no_offset (hw : w.IsValid) (hplain : w.IsPlain) {joint : Char}
    (hjoint : isDateEnd joint = true) :
    Timestamp.readForm? Timestamp.internet (w.text joint) = none := by
  rw [← List.append_nil (w.text joint), Timestamp.readForm?,
    internet_text hw hplain hjoint closes_nil]
  rfl

theorem read?_naive (hw : w.IsValid) (hplain : w.IsPlain) (hu : (w.civil 0).instant = .ok u) :
    Timestamp.read? (String.ofList (w.text 'T')) = some u.truncate := by
  have hend : isDateEnd 'T' = true := rfl
  have hjoined : Timestamp.joined (w.text 'T') = .ok (w.civil 0, []) := by
    rw [← List.append_nil (w.text 'T'), joined_text hw closes_nil]
  have hoffset : Timestamp.readForm? Timestamp.joinedWithOffset (w.text 'T') = none := by
    rw [Timestamp.readForm?, Timestamp.joinedWithOffset, hjoined]
    rfl
  have hread := read?_text w 'T' [] (by rw [List.append_nil]; exact getLast?_text hw 'T')
  rw [List.append_nil] at hread
  rw [hread]
  simp only [Timestamp.forms, List.findSome?_cons, readForm?_of_no_offset hw hplain hend, hoffset,
    readForm?_eq_some hjoined hu, Option.map_some]

/-- With a blank the forms with a `T` miss it as well. -/
theorem read?_spaced (hw : w.IsValid) (hplain : w.IsPlain) (hu : (w.civil 0).instant = .ok u) :
    Timestamp.read? (String.ofList (w.text ' ')) = some u.truncate := by
  have hend : isDateEnd ' ' = true := rfl
  have hoffset : Timestamp.readForm? Timestamp.joinedWithOffset (w.text ' ') = none := by
    rw [Timestamp.readForm?, Timestamp.joinedWithOffset, joined_blank hw]
    rfl
  have hjoined : Timestamp.readForm? Timestamp.joined (w.text ' ') = none := by
    rw [Timestamp.readForm?, joined_blank hw]
  have hread := read?_text w ' ' [] (by rw [List.append_nil]; exact getLast?_text hw ' ')
  rw [List.append_nil] at hread
  rw [hread]
  simp only [Timestamp.forms, List.findSome?_cons, readForm?_of_no_offset hw hplain hend, hoffset,
    hjoined, readForm?_eq_some (spaced_text hw) hu, Option.map_some]

/-- A day alone is left over for the last form. -/
theorem read?_date {d : Date} (hd : d.IsValid) (hplain : 0 ≤ d.year ∧ d.year ≤ 9999)
    (hu : CivilTime.instant ⟨d, 0, 0, 0, 0, 0⟩ = .ok u) :
    Timestamp.read? (String.ofList (d.text ['-'])) = some u.truncate := by
  have hdate : Timestamp.looseDate (d.text ['-']) = .ok (d, []) := by
    rw [← List.append_nil (d.text ['-']), looseDate_text hd]
  -- nothing follows the day, where the first form wants the mark before a time of day
  have hinternet : Timestamp.readForm? Timestamp.internet (d.text ['-']) = none := by
    have hyear : d.year.natAbs < 10 ^ 4 := by omega
    have hday : bounded 1 31 (number 2 2) (padded 2 d.day) = .ok (d.day, []) := by
      rw [← List.append_nil (padded 2 d.day),
        bounded_padded hd.2.2.2.2.1 (day_le_of_isValid hd) (by decide)]
    rw [← List.append_nil (d.text ['-']), Scan.text_append, List.append_nil,
      yearText_of_plain d.year hplain, Timestamp.readForm?, Timestamp.internet,
      number_padded (by decide) (by decide) hyear]
    simp only [Result.ok_bind, mark_cons, bounded_padded hd.2.2.1 hd.2.2.2.1 (by decide), hday]
    rfl
  have hoffset : Timestamp.readForm? Timestamp.joinedWithOffset (d.text ['-']) = none := by
    rw [Timestamp.readForm?, Timestamp.joinedWithOffset, Timestamp.joined, hdate]
    rfl
  have hjoined : Timestamp.readForm? Timestamp.joined (d.text ['-']) = none := by
    rw [Timestamp.readForm?, Timestamp.joined, hdate]
    rfl
  have hspaced : Timestamp.readForm? Timestamp.spaced (d.text ['-']) = none := by
    rw [Timestamp.readForm?, Timestamp.spaced, hdate]
    rfl
  have hdateOnly : Timestamp.dateOnly (d.text ['-']) = .ok (⟨d, 0, 0, 0, 0, 0⟩, []) := by
    rw [Timestamp.dateOnly, hdate]
    rfl
  have hfront : ∀ c ∈ (d.text ['-']).head?, isBlank c = false := by
    rw [← List.append_nil (d.text ['-']), Scan.text_append]
    exact head?_yearText _ _
  have hlast : ∀ c ∈ (d.text ['-']).getLast?, isBlank c = false :=
    getLast?_append_digits (padded_ne_nil 2 d.day) (fun c hc => isDigit_of_mem_padded hc) _
  rw [Timestamp.read?, String.toList_ofList, trimBlanks_eq_self hfront hlast]
  simp only [Timestamp.forms, List.findSome?_cons, hinternet, hoffset, hjoined, hspaced,
    readForm?_eq_some hdateOnly hu, Option.map_some]

/-! ## One moment -/

/-- All the texts of a time that clocks show are read as one instant. -/
theorem exists_read?_spellings (hw : w.IsValid) (hplain : w.IsPlain)
    (hutc : (w.behind o.ahead).IsPlain) : ∃ t : Instant,
      t.second = w.minutes * 60 + min w.second 59 - o.ahead * 60 ∧
      t.nano = (if w.second = 60 then 1000000000 else 0) + w.nano / 1000000 * 1000000 ∧
      ∀ text ∈ w.spellings o, Timestamp.read? text = some t := by
  have hbehind := isValid_behind hw hplain o
  obtain ⟨u, hu, hsecond, hnano⟩ := exists_instant hw hplain o.ahead_lt
  obtain ⟨v, hv, hsecond', hnano'⟩ := exists_instant hbehind hutc
    (show -1440 < (0 : Int) ∧ (0 : Int) < 1440 by omega)
  -- the clocks of UTC count the same minutes less the offset, so both moments are one
  obtain rfl : v = u := by
    refine Instant.ext_parts ?_ (hnano'.trans hnano.symm)
    have hshown : (w.behind o.ahead).second = w.second := rfl
    rw [hsecond', hsecond, minutes_behind, hshown]
    omega
  rw [Int.zero_mul] at hv
  obtain ⟨hcut, hmillis⟩ := truncate_of_eq hw hplain o.ahead_lt hsecond hnano
  refine ⟨v.truncate, hcut.trans hsecond, hmillis, ?_⟩
  simp only [spellings, List.forall_mem_cons]
  exact ⟨read?_colon hw hplain hu, read?_joinedWithOffset hw hplain hu,
    read?_zulu hbehind hutc hv, read?_naive hbehind hutc hv, read?_spaced hbehind hutc hv, nofun⟩

/-- No offset. -/
def Offset.none : Offset := ⟨false, 0, by decide⟩

/-- Clocks of UTC show the beginning of their day as it is. -/
theorem midnight_behind (hw : w.IsValid) : w.midnight.behind Offset.none.ahead = w.midnight := by
  have hminutes : w.midnight.minutes - Offset.none.ahead = w.date.toDays * 1440 := by
    simp only [minutes, midnight, Offset.none, Offset.ahead]
    omega
  rw [behind, hminutes]
  simp only [midnight, Int.mul_ediv_cancel _ (show (1440 : Int) ≠ 0 by decide),
    Date.ofDays_toDays hw.date.isInMonth, mk.injEq, true_and, and_true]
  omega

/-- Whatever clocks show, all the texts of it are read as one instant: the time that they show less
their offset, cut to the millisecond, a leap second lying on the second below it. And a day alone is
read as the instant that its beginning is, in any text. -/
theorem read?_spellings (hw : w.IsValid) (hplain : w.IsPlain)
    (hutc : (w.behind o.ahead).IsPlain) :
    (∃ t : Instant, t.second = w.minutes * 60 + min w.second 59 - o.ahead * 60 ∧
      t.nano = (if w.second = 60 then 1000000000 else 0) + w.nano / 1000000 * 1000000 ∧
      ∀ text ∈ w.spellings o, Timestamp.read? text = some t) ∧
    ∃ t : Instant, t.second = w.date.toDays * 86400 ∧ t.nano = 0 ∧
      ∀ text ∈ String.ofList (w.date.text ['-']) :: w.midnight.spellings Offset.none,
        Timestamp.read? text = some t := by
  refine ⟨exists_read?_spellings hw hplain hutc, ?_⟩
  have hmidnight := isValid_midnight hw
  have hbehind : (w.midnight.behind Offset.none.ahead).IsPlain := by
    rw [midnight_behind hw]
    exact hplain
  obtain ⟨t, hsecond, hnano, htexts⟩ := exists_read?_spellings hmidnight hplain hbehind
  obtain ⟨u, hu, -, -⟩ := exists_instant hmidnight hplain Offset.none.ahead_lt
  -- the texts of the beginning are read as the moment that the day alone is cut to
  have htruncate : u.truncate = t :=
    Option.some.inj ((read?_colon hmidnight hplain hu).symm.trans (htexts _ List.mem_cons_self))
  refine ⟨t, ?_, ?_, ?_⟩
  · rw [hsecond]
    simp only [minutes, midnight, Offset.none, Offset.ahead]
    omega
  · rw [hnano]
    simp [midnight, nano, value]
  · rw [List.forall_mem_cons]
    refine ⟨?_, htexts⟩
    have hnone : (w.midnight.civil (Offset.none.ahead * 60)) = ⟨w.date, 0, 0, 0, 0, 0⟩ := by
      simp [civil, midnight, nano, value, Offset.none, Offset.ahead]
    rw [hnone] at hu
    rw [read?_date hw.date hplain hu, htruncate]

/-- A leap second on a leap day, when it is March in UTC. -/
theorem read?_leap_day : ∃ t : Instant, t.second = 1709256599 ∧ t.nano = 1500000000 ∧
    ∀ text ∈ ["2024-02-29T23:59:60.5-01:30", "2024-02-29T23:59:60.5-0130",
      "2024-03-01T01:29:60.5Z", "2024-03-01T01:29:60.5", "2024-03-01 01:29:60.5"],
      Timestamp.read? text = some t := by
  have hspellings : spellings ⟨⟨2024, 2, 29⟩, 23, 59, 60, ['5']⟩ ⟨true, 90, by decide⟩ =
      ["2024-02-29T23:59:60.5-01:30", "2024-02-29T23:59:60.5-0130", "2024-03-01T01:29:60.5Z",
        "2024-03-01T01:29:60.5", "2024-03-01 01:29:60.5"] := by decide +kernel
  have hvalid : IsValid ⟨⟨2024, 2, 29⟩, 23, 59, 60, ['5']⟩ :=
    ⟨by decide, ⟨by decide, by decide, by decide⟩, List.all_eq_true.1 (by decide), by decide⟩
  obtain ⟨t, hsecond, hnano, htexts⟩ :=
    (read?_spellings (o := ⟨true, 90, by decide⟩) hvalid (by decide) (by decide)).1
  rw [hspellings] at htexts
  exact ⟨t, hsecond, hnano, htexts⟩

end WallTime

end Agenda
