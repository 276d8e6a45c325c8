/-
How moments are spelled.

A document may spell a moment in five forms: RFC 3339, a date and time with or without an offset
behind it, and a date. They are a grammar here, in which every part says what it takes of a text and
what it leaves. The same grammar holds in two manners. In the exact one each number has all its
digits and nothing stands between the parts, as the forms are documented; in the loose one numbers
may be shorter and have blanks before them, a year may have a sign, and an offset may be spread out.

Whatever is spelled is a day and a time of day that calendars and clocks can show. What is spelled
exactly is spelled loosely too, and lies well within the range of instants.
-/
import Agenda.Proofs.Time.Spelling

set_option autoImplicit false

namespace Agenda

open Scan Numeral

/-! ## Moments -/

namespace CivilTime

/-- The second that a civil time denotes, a leap second lying on the one before it. -/
def moment (c : CivilTime) : Int :=
  c.date.toDays * 86400 + c.hour * 3600 + c.minute * 60 + min c.second 59 - c.offset

/-- The moment lies between the first and the last second there are. -/
def InRange (c : CivilTime) : Prop :=
  Instant.firstSecond ≤ c.moment ∧ c.moment ≤ Instant.lastSecond

/-- A day that exists, a time of day that clocks can show, a fraction of a second and an offset of
whole minutes, less than a day of them. -/
structure IsShown (c : CivilTime) : Prop where
  date : c.date.IsValid
  clock : IsClock c.hour c.minute c.second
  nano_lt : c.nano < 1000000000
  offset_mod : c.offset % 60 = 0
  offset_lt : c.offset.natAbs < 86400

variable {c : CivilTime} {t : Instant}

/-- What denotes an instant has a day that exists and an offset of less than a day. -/
theorem of_instant_eq_ok (h : c.instant = .ok t) :
    c.date.IsValid ∧ c.offset.natAbs < 86400 ∧ c.date.toDays * 86400 + c.hour * 3600 +
      c.minute * 60 + (if c.second = 60 then 59 else c.second : Nat) - c.offset = t.second := by
  rw [instant] at h
  split at h
  · cases h
  · rename_i hdate
    split at h
    · cases h
    · rename_i hoffset
      simp only at h
      split at h
      · rename_i u hu
        obtain rfl := Except.ok.inj h
        have hsecond := (Instant.ofParts?_eq_some_iff.1 hu).1
        rw [secondsPerDay] at hoffset hsecond
        exact ⟨not_not.1 hdate, by omega, hsecond.symm⟩
      · cases h

/-- It denotes an instant exactly if its moment is in range. -/
theorem IsShown.exists_instant_iff (h : c.IsShown) : (∃ t, c.instant = .ok t) ↔ c.InRange := by
  have hnano := h.nano_lt
  have hoffset := h.offset_mod
  have hminute := h.clock.minute_le
  have hsecond := h.clock.second_le
  have hbase : (if c.second = 60 then 59 else c.second : Nat) = min c.second 59 := by
    split <;> omega
  constructor
  · rintro ⟨t, ht⟩
    have hmoment := (of_instant_eq_ok ht).2.2
    rw [hbase] at hmoment
    have hfirst := t.first_le
    have hlast := t.le_last
    rw [← hmoment] at hfirst hlast
    exact ⟨hfirst, hlast⟩
  · rintro ⟨hfirst, hlast⟩
    have hlt : (if c.second = 60 then c.nano + nanosPerSecond else c.nano) <
        2 * nanosPerSecond := by
      rw [nanosPerSecond]
      split <;> omega
    -- only second 60 makes up a whole second of nanoseconds, and it counts from second 59
    have hleap : nanosPerSecond ≤ (if c.second = 60 then c.nano + nanosPerSecond else c.nano) →
        c.moment % 60 = 59 := by
      rw [nanosPerSecond, moment]
      split <;> omega
    refine ⟨⟨c.moment, _, hfirst, hlast, hlt, hleap⟩, instant_eq_ok h.date ?_ ?_ rfl⟩
    · rw [secondsPerDay]
      have hday := h.offset_lt
      omega
    · rw [hbase, secondsPerDay]
      rfl

end CivilTime

namespace Timestamp

/-! ## The grammar -/

/-- Whether a form is kept to as it is documented. -/
inductive Manner where
  | exact
  | loose

variable {m : Manner} {cs rest : List Char}

/-- A text begins with digits, which are at least so many and are all the digits that come, up to a
greatest width. -/
def SpellsDigits (least most n : Nat) (cs rest : List Char) : Prop :=
  ∃ digits, cs = digits ++ rest ∧ (∀ c ∈ digits, isDigit c = true) ∧ least ≤ digits.length ∧
    digits.length ≤ most ∧ (digits.length = most ∨ Ends rest) ∧ value digits = n

/-- A text begins with blanks. -/
def SpellsBlanks (cs rest : List Char) : Prop :=
  ∃ blanks, cs = blanks ++ rest ∧ ∀ c ∈ blanks, isBlank c = true

/-- A text begins with a number of a width. A loose one may be shorter, with blanks before it. -/
def SpellsNumber : Manner → Nat → Nat → List Char → List Char → Prop
  | .exact, width, n, cs, rest => SpellsDigits width width n cs rest
  | .loose, width, n, cs, rest => ∃ cs', SpellsBlanks cs cs' ∧ SpellsDigits 1 width n cs' rest

/-- A text begins with a year of four digits. A loose one may have fewer, or a sign and any number
of them, with blanks before it. -/
def SpellsYear : Manner → Int → List Char → List Char → Prop
  | .exact, year, cs, rest => ∃ n : Nat, year = n ∧ SpellsDigits 4 4 n cs rest
  | .loose, year, cs, rest => ∃ cs', SpellsBlanks cs cs' ∧
    ((∃ n : Nat, year = n ∧ SpellsDigits 1 4 n cs' rest) ∨
      ∃ sign digits, ∃ n : Nat, cs' = sign :: digits ∧ SpellsDigits 1 digits.length n digits rest ∧
        ((sign = '+' ∧ year = n) ∨ (sign = '-' ∧ year = -n)))

/-- A text begins with a day that exists. -/
def SpellsDate (m : Manner) (d : Date) (cs rest : List Char) : Prop :=
  d.IsValid ∧ ∃ month day, SpellsYear m d.year cs ('-' :: month) ∧
    SpellsNumber m 2 d.month month ('-' :: day) ∧ SpellsNumber m 2 d.day day rest

/-- The nanoseconds that the digits of a fraction say, those beyond the ninth being skipped. -/
def fractionNanos (digits : List Char) : Nat := value (digits.take 9) * 10 ^ (9 - digits.length)

/-- A text begins with a point and digits, or with nothing. -/
def SpellsFraction (nano : Nat) (cs rest : List Char) : Prop :=
  (nano = 0 ∧ cs = rest ∧ rest.head? ≠ some '.') ∨
    ∃ digits, cs = '.' :: (digits ++ rest) ∧ digits ≠ [] ∧ (∀ c ∈ digits, isDigit c = true) ∧
      Ends rest ∧ nano = fractionNanos digits

/-- A text begins with a time of day that clocks can show. -/
def SpellsClock (m : Manner) (hour minute second nano : Nat) (cs rest : List Char) : Prop :=
  IsClock hour minute second ∧ ∃ minutes seconds fraction,
    SpellsNumber m 2 hour cs (':' :: minutes) ∧ SpellsNumber m 2 minute minutes (':' :: seconds) ∧
      SpellsNumber m 2 second seconds fraction ∧ SpellsFraction nano fraction rest

/-- The sign of an offset. A loose minus may be the mathematical one. -/
def IsSign (m : Manner) (negative : Bool) (sign : Char) : Prop :=
  match negative, m with
  | false, _ => sign = '+'
  | true, .exact => sign = '-'
  | true, .loose => sign = '-' ∨ sign = '\u2212'

/-- A text is an offset of less than a day, with such marks between its hours and minutes. -/
def SpellsOffset (m : Manner) (IsMarks : List Char → Prop) (offset : Int) (cs : List Char) : Prop :=
  ∃ negative sign hours minutes hour minute marks, cs = sign :: hours ∧ IsSign m negative sign ∧
    IsMarks marks ∧ SpellsDigits 2 2 hour hours (marks ++ minutes) ∧
    SpellsDigits 2 2 minute minutes [] ∧ hour ≤ 23 ∧ minute ≤ 59 ∧
    offset = if negative then -((hour : Int) * 3600 + minute * 60)
      else (hour : Int) * 3600 + minute * 60

/-- A text is an offset with a colon, or the letter for none. -/
def SpellsZone (m : Manner) (offset : Int) (cs : List Char) : Prop :=
  (offset = 0 ∧ (cs = ['Z'] ∨ cs = ['z'])) ∨ SpellsOffset m (· = [':']) offset cs

/-- A text is an offset without a colon. A loose one may have colons and blanks in it, and blanks
before it. -/
def SpellsPlainOffset : Manner → Int → List Char → Prop
  | .exact, offset, cs => SpellsOffset .exact (· = []) offset cs
  | .loose, offset, cs => ∃ cs', SpellsBlanks cs cs' ∧
    SpellsOffset .loose (∀ c ∈ ·, c = ':' ∨ isBlank c = true) offset cs'

/-- A text begins with the space between a date and a time of day. A loose one may be any blanks, or
none. -/
def SpellsSpace : Manner → List Char → List Char → Prop
  | .exact, cs, rest => cs = ' ' :: rest
  | .loose, cs, rest => SpellsBlanks cs rest

/-- A text spells a civil time in one of the five forms. That of RFC 3339 leaves no room but for the
sign; it has a `T`, in either case, or a space. -/
inductive Spells (m : Manner) : List Char → CivilTime → Prop where
  | internet {cs clock zone : List Char} {joint : Char} {d : Date} {hour minute second nano : Nat}
      {offset : Int} (hdate : SpellsDate .exact d cs (joint :: clock))
      (hjoint : isDateEnd joint = true)
      (hclock : SpellsClock .exact hour minute second nano clock zone)
      (hzone : SpellsZone m offset zone) : Spells m cs ⟨d, hour, minute, second, nano, offset⟩
  | joinedWithOffset {cs clock zone : List Char} {d : Date} {hour minute second nano : Nat}
      {offset : Int} (hdate : SpellsDate m d cs ('T' :: clock))
      (hclock : SpellsClock m hour minute second nano clock zone)
      (hzone : SpellsPlainOffset m offset zone) :
      Spells m cs ⟨d, hour, minute, second, nano, offset⟩
  | joined {cs clock : List Char} {d : Date} {hour minute second nano : Nat}
      (hdate : SpellsDate m d cs ('T' :: clock))
      (hclock : SpellsClock m hour minute second nano clock []) :
      Spells m cs ⟨d, hour, minute, second, nano, 0⟩
  | spaced {cs space clock : List Char} {d : Date} {hour minute second nano : Nat}
      (hdate : SpellsDate m d cs space) (hspace : SpellsSpace m space clock)
      (hclock : SpellsClock m hour minute second nano clock []) :
      Spells m cs ⟨d, hour, minute, second, nano, 0⟩
  | dateOnly {cs : List Char} {d : Date} (hdate : SpellsDate m d cs []) :
      Spells m cs ⟨d, 0, 0, 0, 0, 0⟩

/-! ## What is spelled can be shown -/

theorem SpellsDigits.lt {least most n : Nat} (h : SpellsDigits least most n cs rest) :
    n < 10 ^ most := by
  obtain ⟨digits, -, hdigits, -, hmost, -, rfl⟩ := h
  have hlt := valueFrom_lt hdigits 0
  rw [Nat.zero_add, Nat.one_mul] at hlt
  exact hlt.trans_le (Nat.pow_le_pow_right (by decide) hmost)

theorem fractionNanos_lt {digits : List Char} (h : ∀ c ∈ digits, isDigit c = true) :
    fractionNanos digits < 1000000000 := by
  have hdigits : ∀ c ∈ digits.take 9, isDigit c = true := fun c hc => h c (List.mem_of_mem_take hc)
  have hlt : value (digits.take 9) < 10 ^ (digits.take 9).length := by
    have hlt := valueFrom_lt hdigits 0
    rwa [Nat.zero_add, Nat.one_mul] at hlt
  have hsum : (digits.take 9).length + (9 - digits.length) = 9 := by
    rw [List.length_take]
    omega
  calc fractionNanos digits < 10 ^ (digits.take 9).length * 10 ^ (9 - digits.length) :=
        Nat.mul_lt_mul_of_pos_right hlt (Nat.pow_pos (by decide))
    _ = 1000000000 := by rw [← Nat.pow_add, hsum]

theorem SpellsFraction.nano_lt {nano : Nat} (h : SpellsFraction nano cs rest) :
    nano < 1000000000 := by
  rcases h with ⟨rfl, -⟩ | ⟨digits, -, -, hdigits, -, rfl⟩
  · decide
  · exact fractionNanos_lt hdigits

theorem SpellsClock.nano_lt {hour minute second nano : Nat}
    (h : SpellsClock m hour minute second nano cs rest) : nano < 1000000000 := by
  obtain ⟨-, _, _, _, -, -, -, hfraction⟩ := h
  exact hfraction.nano_lt

/-- An offset has whole minutes, and less than a day of them. -/
theorem SpellsOffset.bounds {IsMarks : List Char → Prop} {o : Int}
    (h : SpellsOffset m IsMarks o cs) : o % 60 = 0 ∧ o.natAbs < 86400 := by
  obtain ⟨negative, _, _, _, hour, minute, _, -, -, -, -, -, hhour, hminute, rfl⟩ := h
  split <;> omega

theorem SpellsZone.bounds {o : Int} (h : SpellsZone m o cs) : o % 60 = 0 ∧ o.natAbs < 86400 := by
  rcases h with ⟨rfl, -⟩ | hoffset
  · decide
  · exact hoffset.bounds

theorem SpellsPlainOffset.bounds {o : Int} (h : SpellsPlainOffset m o cs) :
    o % 60 = 0 ∧ o.natAbs < 86400 := by
  cases m with
  | exact => exact SpellsOffset.bounds h
  | loose =>
      obtain ⟨_, -, hoffset⟩ := h
      exact hoffset.bounds

theorem Spells.isShown {c : CivilTime} (h : Spells m cs c) : c.IsShown := by
  have hzero : (0 : Int).natAbs < 86400 := by decide
  have hnano : 0 < 1000000000 := by decide
  cases h with
  | internet hd _ hclock hzone =>
      exact ⟨hd.1, hclock.1, hclock.nano_lt, hzone.bounds.1, hzone.bounds.2⟩
  | joinedWithOffset hd hclock hzone =>
      exact ⟨hd.1, hclock.1, hclock.nano_lt, hzone.bounds.1, hzone.bounds.2⟩
  | joined hd hclock => exact ⟨hd.1, hclock.1, hclock.nano_lt, rfl, hzero⟩
  | spaced hd _ hclock => exact ⟨hd.1, hclock.1, hclock.nano_lt, rfl, hzero⟩
  | dateOnly hd =>
      exact ⟨hd.1, ⟨Nat.zero_le _, Nat.zero_le _, Nat.zero_le _⟩, hnano, rfl, hzero⟩

/-! ## Exact texts -/

theorem SpellsBlanks.refl (cs : List Char) : SpellsBlanks cs cs := ⟨[], rfl, by simp⟩

theorem SpellsDigits.mono {least least' most n : Nat} (h : SpellsDigits least most n cs rest)
    (hle : least' ≤ least) : SpellsDigits least' most n cs rest := by
  obtain ⟨digits, hcs, hdigits, hleast, h⟩ := h
  exact ⟨digits, hcs, hdigits, hle.trans hleast, h⟩

/-- What is spelled exactly is spelled loosely too. -/
theorem SpellsNumber.loosen {width n : Nat} (h : SpellsNumber .exact (width + 1) n cs rest) :
    SpellsNumber .loose (width + 1) n cs rest :=
  ⟨cs, .refl cs, SpellsDigits.mono h (Nat.le_add_left 1 width)⟩

theorem SpellsDate.loosen {d : Date} (h : SpellsDate .exact d cs rest) :
    SpellsDate .loose d cs rest := by
  obtain ⟨hd, month, day, ⟨n, hn, hyear⟩, hmonth, hday⟩ := h
  exact ⟨hd, month, day, ⟨cs, .refl cs, .inl ⟨n, hn, hyear.mono (by decide)⟩⟩, hmonth.loosen,
    hday.loosen⟩

theorem SpellsClock.loosen {hour minute second nano : Nat}
    (h : SpellsClock .exact hour minute second nano cs rest) :
    SpellsClock .loose hour minute second nano cs rest := by
  obtain ⟨hclock, minutes, seconds, fraction, hhour, hminute, hsecond, hfraction⟩ := h
  exact ⟨hclock, minutes, seconds, fraction, hhour.loosen, hminute.loosen, hsecond.loosen,
    hfraction⟩

theorem SpellsOffset.loosen {IsMarks IsMarks' : List Char → Prop} {o : Int}
    (h : SpellsOffset .exact IsMarks o cs) (hmarks : ∀ marks, IsMarks marks → IsMarks' marks) :
    SpellsOffset .loose IsMarks' o cs := by
  obtain ⟨negative, sign, hours, minutes, hour, minute, marks, hcs, hsign, hm, h⟩ := h
  refine ⟨negative, sign, hours, minutes, hour, minute, marks, hcs, ?_, hmarks marks hm, h⟩
  cases negative with
  | false => exact hsign
  | true => exact .inl hsign

theorem Spells.loosen {c : CivilTime} (h : Spells .exact cs c) : Spells .loose cs c := by
  cases h with
  | internet hd hjoint hclock hzone =>
      exact .internet hd hjoint hclock (hzone.imp_right fun h => h.loosen fun _ => id)
  | joinedWithOffset hd hclock hzone =>
      refine .joinedWithOffset hd.loosen hclock.loosen ⟨_, .refl _, SpellsOffset.loosen hzone ?_⟩
      rintro _ rfl
      simp
  | joined hd hclock => exact .joined hd.loosen hclock.loosen
  | spaced hd hspace hclock =>
      refine .spaced hd.loosen ⟨[' '], hspace, ?_⟩ hclock.loosen
      simp only [List.forall_mem_singleton]
      decide
  | dateOnly hd => exact .dateOnly hd.loosen

theorem SpellsDate.plain {d : Date} (h : SpellsDate .exact d cs rest) :
    0 ≤ d.year ∧ d.year ≤ 9999 := by
  obtain ⟨-, month, day, ⟨n, hn, hyear⟩, -⟩ := h
  have hlt := hyear.lt
  omega

/-- So many digits are a number of that width, whatever comes after them. -/
theorem SpellsDigits.of_length {width n : Nat} (digits : List Char) (h : cs = digits ++ rest ∧
    digits.all isDigit = true ∧ digits.length = width ∧ value digits = n) :
    SpellsDigits width width n cs rest :=
  ⟨digits, h.1, List.all_eq_true.1 h.2.1, h.2.2.1.ge, h.2.2.1.le, .inl h.2.2.1, h.2.2.2⟩

theorem SpellsDigits.length_eq {width n : Nat} (h : SpellsDigits width width n cs rest) :
    cs.length = width + rest.length := by
  obtain ⟨digits, rfl, -, hleast, hmost, -⟩ := h
  rw [List.length_append, Nat.le_antisymm hmost hleast]

theorem SpellsDate.length_eq {d : Date} (h : SpellsDate .exact d cs rest) :
    cs.length = 10 + rest.length := by
  obtain ⟨-, month, day, ⟨_, -, hyear⟩, hmonth, hday⟩ := h
  have hyear := hyear.length_eq
  have hmonth := SpellsDigits.length_eq hmonth
  have hday := SpellsDigits.length_eq hday
  rw [List.length_cons] at hyear hmonth
  omega

/-- A date that is spelled exactly takes ten characters. -/
theorem Spells.length_le {c : CivilTime} (h : Spells .exact cs c) : 10 ≤ cs.length := by
  cases h with
  | internet hd => exact Nat.le.intro hd.length_eq.symm
  | joinedWithOffset hd => exact Nat.le.intro hd.length_eq.symm
  | joined hd => exact Nat.le.intro hd.length_eq.symm
  | spaced hd => exact Nat.le.intro hd.length_eq.symm
  | dateOnly hd => exact Nat.le.intro hd.length_eq.symm

/-- A year of four digits lies well within those that there are. -/
theorem Spells.inRange {c : CivilTime} (h : Spells .exact cs c) : c.InRange := by
  have hplain : 0 ≤ c.date.year ∧ c.date.year ≤ 9999 := by
    cases h with
    | internet hd => exact hd.plain
    | joinedWithOffset hd => exact hd.plain
    | joined hd => exact hd.plain
    | spaced hd => exact hd.plain
    | dateOnly hd => exact hd.plain
  have hshown := h.isShown
  have hdays := toDays_bounds_of_isValid hshown.date hplain
  have hhour := hshown.clock.hour_le
  have hminute := hshown.clock.minute_le
  have hday := hshown.offset_lt
  rw [CivilTime.InRange, CivilTime.moment, Instant.firstSecond, Instant.lastSecond]
  omega

end Timestamp

end Agenda
