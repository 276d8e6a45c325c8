/-
Reminders, by the clocks of a zone.

What clocks show at an instant is its second with the offset of the zone added, taken apart into a
day and a time of day. A zone knows every offset it ever has, so among the seconds at which clocks
show a given time none is missed, and the earliest of them is found. The time from that one to the
start then follows from what clocks show at either end: the day between the two, the hours, and the
difference of the two offsets, which is not nothing where the clocks were changed in between.
-/
import Agenda.Calendar.Event
import Agenda.Proofs.Time.Days
import Agenda.Proofs.Time.Spelling

set_option autoImplicit false

namespace Agenda

/-- The nanoseconds since the epoch. -/
def Instant.nanos (t : Instant) : Int := t.second * nanosPerSecond + t.nano

/-- What clocks show: the day, the time of day, and the nanoseconds of the second. -/
structure ClockTime where
  date : Date
  hour : Nat
  minute : Nat
  second : Nat
  nano : Nat
deriving DecidableEq

/-- What clocks show that have counted so many seconds. -/
def ClockTime.ofSecond (shown : Int) (nano : Nat) : ClockTime :=
  { date := Date.ofDays (shown / secondsPerDay)
    hour := (shown % secondsPerDay / 3600).toNat
    minute := (shown % 3600 / 60).toNat
    second := (shown % 60).toNat
    nano }

/-- A count of seconds by its days, hours, minutes and seconds. -/
theorem ClockTime.count_eq (n : Int) :
    n = n / 86400 * 86400 + n % 86400 / 3600 * 3600 + n % 3600 / 60 * 60 + n % 60 := by
  have hhours : n % 86400 = n % 86400 / 3600 * 3600 + n % 3600 := by omega
  omega

/-- Clocks that show the same have counted the same. -/
theorem ClockTime.ofSecond_inj {shown shown' : Int} {nano nano' : Nat} :
    ofSecond shown nano = ofSecond shown' nano' ↔ shown = shown' ∧ nano = nano' := by
  refine ⟨fun h => ?_, fun h => by rw [h.1, h.2]⟩
  simp only [ofSecond, mk.injEq, secondsPerDay] at h
  obtain ⟨hdate, hhour, hminute, hsecond, hnano⟩ := h
  have hday := congrArg Date.toDays hdate
  rw [Date.toDays_ofDays, Date.toDays_ofDays] at hday
  have hhour' : shown % 86400 / 3600 = shown' % 86400 / 3600 := by
    clear hminute hsecond hday
    omega
  have hminute' : shown % 3600 / 60 = shown' % 3600 / 60 := by
    clear hhour hsecond hday
    omega
  have hsecond' : shown % 60 = shown' % 60 := by
    clear hhour hminute hday
    omega
  refine ⟨?_, hnano⟩
  rw [count_eq shown, count_eq shown', hday, hhour', hminute', hsecond']

namespace Zone

/-- The second that clocks of the zone have counted at an instant. -/
def shownAt (z : Zone) (t : Instant) : Int := t.second + z.offsetAt t.second

/-- What clocks of the zone show at an instant. -/
def clock (z : Zone) (t : Instant) : ClockTime := .ofSecond (z.shownAt t) t.nano

/-! ## Offsets at will -/

/-- A change at each of so many seconds. Most of them change nothing, but a table need not be short
to show that one exists. -/
def changesFrom (offset : Int → Int) (start : Int) : Nat → List Change
  | 0 => []
  | n + 1 => ⟨start, offset start⟩ :: changesFrom offset (start + 1) n

/-- Changes that are still to come are not in force. -/
theorem offsetAfter_changesFrom_of_lt {start second : Int} (h : second < start)
    (before : Int) (offset : Int → Int) (n : Nat) :
    offsetAfter before (changesFrom offset start n) second = before := by
  cases n with
  | zero => rfl
  | succ n => exact if_neg (Int.not_le.2 h)

theorem offsetAfter_changesFrom {offset : Int → Int} {n : Nat} {before start second : Int}
    (hstart : start ≤ second) (hstop : second < start + n) :
    offsetAfter before (changesFrom offset start n) second = offset second := by
  induction n generalizing before start with
  | zero => omega
  | succ n ih =>
      rw [changesFrom, offsetAfter, if_pos hstart]
      obtain rfl | hlt := hstart.eq_or_lt
      · exact offsetAfter_changesFrom_of_lt (Int.lt_succ start) _ _ _
      · exact ih hlt (by omega)

/-- The changes bring no other offsets than those that are asked for. -/
theorem natAbs_lt_of_mem_changesFrom {offset : Int → Int} {bound : Int}
    (hoffset : ∀ second, (offset second).natAbs < bound) (start : Int) (n : Nat) :
    ∀ m ∈ (changesFrom offset start n).map Change.offset, m.natAbs < bound := by
  induction n generalizing start with
  | zero => exact fun m hm => absurd hm List.not_mem_nil
  | succ n ih =>
      rw [changesFrom, List.map_cons, List.forall_mem_cons]
      exact ⟨hoffset start, ih (start + 1)⟩

/-- A table of changes stands for every way to give instants an offset below a day, because there
are finitely many seconds: what holds for all zones holds for all of these ways. -/
theorem exists_offsetAt_eq {offset : Int → Int}
    (hoffset : ∀ second, (offset second).natAbs < secondsPerDay) :
    ∃ z : Zone, ∀ t : Instant, z.offsetAt t.second = offset t.second := by
  have hrange : (0 : Int) ≤ Instant.lastSecond + 1 - Instant.firstSecond := by decide
  -- a change for every second there is; only their number matters, and that it is finite
  obtain ⟨n, hn⟩ := Int.eq_ofNat_of_zero_le hrange
  have hwithin : ∀ m ∈ 0 :: (changesFrom offset Instant.firstSecond n).map Change.offset,
      m.natAbs < secondsPerDay := by
    rw [List.forall_mem_cons]
    exact ⟨by decide, natAbs_lt_of_mem_changesFrom hoffset _ _⟩
  refine ⟨⟨0, changesFrom offset Instant.firstSecond n, hwithin⟩, ?_⟩
  intro t
  apply offsetAfter_changesFrom t.first_le
  have hlast := t.le_last
  omega

/-! ## Looking up a local time -/

theorem offsetAfter_mem (offset : Int) (changes : List Change) (second : Int) :
    offsetAfter offset changes second ∈ offset :: changes.map Change.offset := by
  induction changes generalizing offset with
  | nil => exact List.mem_cons_self
  | cons change changes ih =>
      rw [offsetAfter]
      split
      · exact List.mem_cons_of_mem _ (ih change.offset)
      · exact List.mem_cons_self

/-- At no second are clocks a whole day away from UTC. -/
theorem natAbs_offsetAt_lt (z : Zone) (second : Int) :
    (z.offsetAt second).natAbs < secondsPerDay :=
  z.withinDay _ (offsetAfter_mem _ _ _)

/-- The seconds that are looked up are those at which clocks show the time. -/
theorem mem_secondsShowing_iff {z : Zone} {shown second : Int} :
    second ∈ z.secondsShowing shown ↔ second + z.offsetAt second = shown := by
  rw [secondsShowing, List.mem_filter, decide_eq_true_iff, and_iff_right_iff_imp]
  intro h
  exact List.mem_map.2 ⟨z.offsetAt second, offsetAfter_mem _ _ _, by omega⟩

/-- An instant is found exactly if it shows the time, and no second before it does, in range or
not. -/
theorem earliestShowing?_eq_some_iff {z : Zone} {shown : Int} {t : Instant} :
    z.earliestShowing? shown = some t ↔ z.shownAt t = shown ∧ t.nano = 0 ∧
      ∀ second, second + z.offsetAt second = shown → t.second ≤ second := by
  have hmin : (z.secondsShowing shown).min? = some t.second ↔
      z.shownAt t = shown ∧ ∀ second, second + z.offsetAt second = shown → t.second ≤ second := by
    simp only [List.min?_eq_some_iff, mem_secondsShowing_iff, shownAt]
  rw [earliestShowing?, Option.bind_eq_bind, Option.bind_eq_some_iff]
  constructor
  · rintro ⟨second, hsecond, ht⟩
    obtain ⟨rfl, hnano⟩ := Instant.ofParts?_eq_some_iff.1 ht
    obtain ⟨hshown, hearliest⟩ := hmin.1 hsecond
    exact ⟨hshown, hnano, hearliest⟩
  · rintro ⟨hshown, hnano, hearliest⟩
    exact ⟨t.second, hmin.2 ⟨hshown, hearliest⟩, Instant.ofParts?_eq_some_iff.2 ⟨rfl, hnano⟩⟩

/-- The instant that is found shows the time, and nothing before it does. -/
theorem earliestShowing?_eq_some {z : Zone} {shown : Int} {t : Instant}
    (h : z.earliestShowing? shown = some t) : z.shownAt t = shown ∧ t.nano = 0 ∧
      ∀ u : Instant, z.shownAt u = shown → t.second ≤ u.second := by
  obtain ⟨hshown, hwhole, hearliest⟩ := earliestShowing?_eq_some_iff.1 h
  exact ⟨hshown, hwhole, fun u hu => hearliest u.second hu⟩

end Zone

namespace Calendar

/-! ## The evening before -/

section

variable {shown evening : Int} {hour : Nat}

/-- There is an evening before if there is such an hour, and a day before. -/
theorem exists_evening?_iff :
    (∃ evening, evening? shown hour = some evening) ↔
      hour < 24 ∧ Instant.firstSecond + secondsPerDay ≤ shown := by
  have hbounds : Instant.firstSecond ≤ (shown / secondsPerDay - 1) * secondsPerDay ↔
      Instant.firstSecond + secondsPerDay ≤ shown := by
    simp only [Instant.firstSecond, secondsPerDay]
    omega
  rw [evening?, ← hbounds]
  constructor
  · rintro ⟨evening, h⟩
    exact (Option.ite_none_right_eq_some.1 h).1.symm
  · exact fun h => ⟨_, if_pos h.symm⟩

/-- The evening before a start lies a day and some hours before it. -/
theorem evening?_eq_some (h : evening? shown hour = some evening) (nano : Nat) : hour < 24 ∧
    shown - evening = (24 + (ClockTime.ofSecond shown nano).hour - hour) * 3600 := by
  rw [evening?] at h
  split at h
  · rename_i hbounds
    cases h
    refine ⟨hbounds.2, ?_⟩
    simp only [ClockTime.ofSecond, secondsPerDay]
    omega
  · cases h

/-- It shows the day before, the hour of reminders, and the minutes and seconds of the start. -/
theorem clock_evening (h : evening? shown hour = some evening) (nano : Nat) :
    ClockTime.ofSecond evening 0 = { ClockTime.ofSecond shown nano with
      date := (ClockTime.ofSecond shown nano).date.dayBefore
      hour
      nano := 0 } := by
  rw [evening?] at h
  split at h
  · rename_i hbounds
    obtain ⟨-, hhour⟩ := hbounds
    rw [Option.some.injEq] at h
    rw [secondsPerDay] at h
    have hday : evening / secondsPerDay = shown / secondsPerDay - 1 := by
      rw [secondsPerDay]
      omega
    have htime : evening % secondsPerDay = hour * 3600 + shown % 3600 := by
      rw [secondsPerDay]
      omega
    have hminutes : evening % 3600 = shown % 3600 := by omega
    have hseconds : evening % 60 = shown % 60 := by omega
    simp only [ClockTime.ofSecond, hday, htime, hminutes, hseconds, Date.ofDays_pred,
      ClockTime.mk.injEq, true_and, and_true]
    omega
  · cases h

end

/-! ## The time from the reminder to the start -/

/-- From a whole second to an instant outside a leap second the time is what the counts say. -/
theorem nanosSince_of_whole {t u : Instant} (hleap : t.isLeap = false) (hwhole : u.nano = 0) :
    t.nanosSince u = t.nanos - u.nanos := by
  have hu : u.isLeap = false := by
    rw [Instant.isLeap, hwhole]
    rfl
  simp only [Instant.nanosSince, Instant.nanos, hleap, hu, hwhole, nanosPerSecond,
    Bool.false_eq_true, if_false, ite_self]
  omega

/-- Whether there is a reminder is settled if the local time of the start is in range. -/
theorem exists_lead?_iff (zone : Zone) (hour : Nat) (start : Instant) :
    (∃ lead, lead? zone hour start = .ok lead) ↔
      Instant.firstSecond ≤ zone.shownAt start ∧ zone.shownAt start ≤ Instant.lastSecond := by
  rw [lead?, Zone.shownAt]
  split
  · simp only [reduceCtorEq, exists_false, false_iff]
    omega
  · simp only [Except.ok.injEq, exists_eq', true_iff]
    omega

/-- A lead is the time from the earliest instant that shows the evening before. -/
theorem lead?_eq_some_iff {zone : Zone} {hour : Nat} {start : Instant} {lead : Nat} :
    lead? zone hour start = .ok (some lead) ↔ Instant.firstSecond ≤ zone.shownAt start ∧
      zone.shownAt start ≤ Instant.lastSecond ∧ ∃ evening reminder,
        evening? (zone.shownAt start) hour = some evening ∧
        zone.earliestShowing? evening = some reminder ∧
        0 < lead ∧ start.nanosSince reminder = lead := by
  have hpositive : ∀ n : Int, (if 0 < n then some n.toNat else none) = some lead ↔
      0 < lead ∧ n = lead := by
    intro n
    rw [Option.ite_none_right_eq_some, Option.some.injEq]
    omega
  rw [lead?]
  change (if zone.shownAt start < _ ∨ _ < zone.shownAt start then _ else _) = _ ↔ _
  split
  · simp only [reduceCtorEq, false_iff]
    omega
  · simp only [Except.ok.injEq, Option.bind_eq_bind, Option.bind_eq_some_iff, hpositive]
    constructor
    · rintro ⟨evening, hevening, reminder, hreminder, hlead⟩
      exact ⟨by omega, by omega, evening, reminder, hevening, hreminder, hlead⟩
    · rintro ⟨-, -, evening, reminder, hevening, hreminder, hlead⟩
      exact ⟨evening, hevening, reminder, hreminder, hlead⟩

theorem lead?_eq_some {zone : Zone} {hour : Nat} {start : Instant} {lead : Nat}
    (h : lead? zone hour start = .ok (some lead)) : ∃ evening reminder,
      evening? (zone.shownAt start) hour = some evening ∧
      zone.earliestShowing? evening = some reminder ∧
      0 < lead ∧ start.nanosSince reminder = lead :=
  (lead?_eq_some_iff.1 h).2.2

/-- A lead is as long as the clocks say, whatever they are put to in between: the hours from the
reminder to the start, the fraction of the start, and the difference of the two offsets. So the
instant that lies by the lead before the start shows the calendar day before, at the hour of
reminders and with the start's minutes and seconds, and none that shows this is earlier. -/
theorem lead?_exact {zone : Zone} {hour : Nat} {start : Instant} {lead : Nat}
    (hleap : start.isLeap = false) (h : lead? zone hour start = .ok (some lead)) :
    0 < lead ∧ ∃ reminder : Instant,
      (lead : Int) = ((24 + (zone.clock start).hour - hour) * 3600 +
        zone.offsetAt reminder.second - zone.offsetAt start.second) * nanosPerSecond + start.nano ∧
      reminder.nanos = start.nanos - lead ∧
      zone.clock reminder = { zone.clock start with
        date := (zone.clock start).date.dayBefore
        hour
        nano := 0 } ∧
      ∀ u : Instant, zone.clock u = zone.clock reminder → u.lt reminder = false := by
  obtain ⟨evening, reminder, hevening, hreminder, hpositive, hlead⟩ := lead?_eq_some h
  obtain ⟨hshown, hwhole, hearliest⟩ := Zone.earliestShowing?_eq_some hreminder
  obtain ⟨-, hhours⟩ := evening?_eq_some hevening start.nano
  have hclock := clock_evening hevening start.nano
  rw [nanosSince_of_whole hleap hwhole] at hlead
  refine ⟨hpositive, reminder, ?_, by omega, ?_, ?_⟩
  · rw [← hshown, Zone.shownAt, Zone.shownAt] at hhours
    rw [← hlead, Instant.nanos, Instant.nanos, hwhole, Zone.clock, Zone.shownAt, ← hhours,
      nanosPerSecond]
    omega
  · rw [Zone.clock, Zone.clock, hshown, hwhole]
    exact hclock
  · intro u hu
    rw [Zone.clock, Zone.clock, ClockTime.ofSecond_inj] at hu
    have hle := hearliest u (hu.1.trans hshown)
    have hnano : u.nano = 0 := hu.2.trans hwhole
    rw [Instant.lt, hnano, hwhole, Bool.or_eq_false_iff, Bool.and_eq_false_iff,
      decide_eq_false_iff_not]
    exact ⟨by omega, .inr rfl⟩

/-- A zone that is an hour ahead of UTC, and two from the last Sunday of March 2024 on. -/
def springZone : Zone := ⟨3600, [⟨1711846800, 7200⟩], by decide⟩

/-- Half a second past half past ten on that Sunday. -/
def springMorning : Instant :=
  ⟨1711873800, 500000000, by decide, by decide, by decide, by decide⟩

/-- The evening before lies an hour less before it than the clocks say, since they skipped an hour
in the night. This is what tells a difference of instants from one of clock readings. -/
theorem lead?_spring : (0 < 57600500000000 ∧ ∃ reminder : Instant,
      (57600500000000 : Nat) = ((24 + 10 - 17 : Int) * 3600 +
        springZone.offsetAt reminder.second - 7200) * nanosPerSecond + 500000000 ∧
      reminder.nanos = springMorning.nanos - 57600500000000 ∧
      springZone.clock reminder = ⟨⟨2024, 3, 30⟩, 17, 30, 0, 0⟩ ∧
      ∀ u : Instant, springZone.clock u = springZone.clock reminder → u.lt reminder = false) ∧
    springZone.clock springMorning = ⟨⟨2024, 3, 31⟩, 10, 30, 0, 500000000⟩ := by
  have hclock : springZone.clock springMorning = ⟨⟨2024, 3, 31⟩, 10, 30, 0, 500000000⟩ := by
    decide
  have hoffset : springZone.offsetAt springMorning.second = 7200 := by decide
  have hlead : lead? springZone 17 springMorning = .ok (some 57600500000000) := by
    decide +kernel
  have hmain := lead?_exact (by decide) hlead
  rw [hclock, hoffset] at hmain
  exact ⟨hmain, hclock⟩

end Calendar

end Agenda
