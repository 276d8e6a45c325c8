/-
Which events have an alarm.

An alarm is set for the earliest second at which clocks of the zone show the evening before, if it
comes before the start. Where clocks are put forward over that time they do not show it at all, and
then the event has no alarm, however long before the start the evening was.
-/
import Agenda.Proofs.Calendar.Outline

set_option autoImplicit false

namespace Agenda

/-- What clocks show on the evening before: the day before, at this hour, with the same minutes and
seconds and without a fraction. -/
def ClockTime.eveningBefore (c : ClockTime) (hour : Nat) : ClockTime :=
  { c with date := c.date.dayBefore, hour, nano := 0 }

/-- An instant is the reminder for a start: clocks show the evening before then, and at no earlier
second, be it in range or not. -/
structure Zone.IsReminder (z : Zone) (hour : Nat) (start reminder : Instant) : Prop where
  shows : z.clock reminder = (z.clock start).eveningBefore hour
  earliest : ∀ second, second + z.offsetAt second = z.shownAt reminder → reminder.second ≤ second

theorem Zone.IsReminder.nano_eq {z : Zone} {hour : Nat} {start reminder : Instant}
    (h : z.IsReminder hour start reminder) : reminder.nano = 0 :=
  congrArg ClockTime.nano h.shows

/-- The time that has passed since an earlier whole second is positive. A leap second on the later
side may not count, but its fraction is more than a second then. -/
theorem Instant.nanosSince_pos {t u : Instant} (hwhole : u.nano = 0) (hlt : u.lt t = true) :
    0 < t.nanosSince u := by
  simp only [lt, hwhole, Bool.or_eq_true, Bool.and_eq_true, decide_eq_true_iff] at hlt
  cases hleap : t.isLeap with
  | false =>
      rw [Calendar.nanosSince_of_whole hleap hwhole, nanos, nanos, hwhole, nanosPerSecond]
      omega
  | true =>
      have hu : u.isLeap = false := by
        rw [isLeap, hwhole]
        rfl
      have hnano := isLeap_iff.1 hleap
      rw [nanosPerSecond] at hnano
      have hadjust : t.nanosSince u =
          (t.second - u.second + if t.secondOfDay < u.secondOfDay then -1 else 0) * 1000000000 +
            t.nano := by
        simp only [nanosSince, hu, hleap, hwhole, nanosPerSecond, Bool.false_eq_true, if_false,
          if_true]
        split
        · rename_i hday
          rw [if_neg (Nat.lt_asymm hday)]
          omega
        · omega
      rw [hadjust]
      split
      · rename_i hday
        have hne : u.second ≠ t.second := fun h => by
          rw [secondOfDay, secondOfDay, h] at hday
          exact Nat.lt_irrefl _ hday
        omega
      · omega

namespace Calendar

section

variable {zone : Zone} {hour : Nat} {start reminder : Instant} {evening : Int}

/-- There is an evening before if there is such an hour, and a day before. -/
theorem exists_evening (hhour : hour < 24) (hlast : zone.shownAt start ≤ Instant.lastSecond)
    (hfirst : Instant.firstSecond ≤ zone.shownAt start)
    (hday : (zone.clock start).date.dayBefore.IsValid) :
    ∃ evening, evening? (zone.shownAt start) hour = some evening := by
  have hbounds : Date.dayBounds.1 ≤ zone.shownAt start / secondsPerDay ∧
      zone.shownAt start / secondsPerDay ≤ Date.dayBounds.2 := by
    simp only [Date.dayBounds, Instant.firstSecond, Instant.lastSecond, secondsPerDay]
      at hfirst hlast ⊢
    omega
  have hbefore := (Date.isValid_dayBefore_iff hbounds.1 hbounds.2).1 hday
  refine exists_evening?_iff.2 ⟨hhour, ?_⟩
  simp only [Date.dayBounds, Instant.firstSecond, secondsPerDay] at hbefore ⊢
  omega

/-- The reminder is the instant that is found for the evening before. -/
theorem isReminder_iff (hevening : evening? (zone.shownAt start) hour = some evening) :
    zone.IsReminder hour start reminder ↔ zone.earliestShowing? evening = some reminder := by
  have hclock : zone.clock reminder = (zone.clock start).eveningBefore hour ↔
      zone.shownAt reminder = evening ∧ reminder.nano = 0 := by
    rw [← ClockTime.ofSecond_inj, clock_evening hevening start.nano]
    rfl
  rw [Zone.earliestShowing?_eq_some_iff]
  constructor
  · rintro ⟨hshows, hearliest⟩
    obtain ⟨hshown, hwhole⟩ := hclock.1 hshows
    exact ⟨hshown, hwhole, hshown ▸ hearliest⟩
  · rintro ⟨hshown, hwhole, hearliest⟩
    exact ⟨hclock.2 ⟨hshown, hwhole⟩, hshown ▸ hearliest⟩

/-- A lead is the time from the reminder to the start, if that is positive. -/
theorem lead?_eq_some_iff_isReminder {lead : Nat} :
    lead? zone hour start = .ok (some lead) ↔ Instant.firstSecond ≤ zone.shownAt start ∧
      zone.shownAt start ≤ Instant.lastSecond ∧
      (∃ evening, evening? (zone.shownAt start) hour = some evening) ∧
      ∃ reminder, zone.IsReminder hour start reminder ∧
        0 < lead ∧ start.nanosSince reminder = lead := by
  rw [lead?_eq_some_iff]
  refine and_congr_right fun _ => and_congr_right fun _ => ?_
  constructor
  · rintro ⟨evening, reminder, hevening, hreminder, hlead⟩
    exact ⟨⟨evening, hevening⟩, reminder, (isReminder_iff hevening).2 hreminder, hlead⟩
  · rintro ⟨⟨evening, hevening⟩, reminder, hreminder, hlead⟩
    exact ⟨evening, reminder, hevening, (isReminder_iff hevening).1 hreminder, hlead⟩

end

variable {options : Options} {occasion : Occasion} {h : Homework} {homework : List Homework}
  {event : Component} {t : String}

/-- A component has an alarm in it. -/
def Component.HasAlarm (c : Component) : Prop := ∃ alarm ∈ c.inner, alarm.name = "VALARM".toList

theorem hasAlarm_eventComponent {number : Nat} {stop : Instant} {lead : Option Nat} :
    (eventComponent occasion number h stop lead).HasAlarm ↔ ∃ n, lead = some n := by
  cases lead with
  | none => simp [Component.HasAlarm, eventComponent]
  | some n => simp [Component.HasAlarm, eventComponent, alarmComponent]

/-- An event has an alarm exactly if there is a reminder and it comes before the start. -/
theorem Schedules.hasAlarm_iff (hevent : Schedules options occasion h event)
    (hhour : options.reminderHour < 24)
    (hday : (options.zone.clock h.date).date.dayBefore.IsValid) :
    event.HasAlarm ↔ ∃ reminder, options.zone.IsReminder options.reminderHour h.date reminder ∧
      0 < h.date.nanosSince reminder := by
  obtain ⟨number, hstop, hlead⟩ := hevent
  obtain ⟨hfirst, hlast⟩ := (exists_lead?_iff _ _ _).1 ⟨_, hlead⟩
  have hsome : ∀ lead n, lead? options.zone options.reminderHour h.date = .ok lead →
      (lead = some n ↔ lead? options.zone options.reminderHour h.date = .ok (some n)) := by
    intro lead n hlead
    rw [hlead, Except.ok.injEq]
  rw [hasAlarm_eventComponent]
  simp only [hsome _ _ hlead, lead?_eq_some_iff_isReminder, hfirst, hlast,
    exists_evening hhour hlast hfirst hday, true_and]
  constructor
  · rintro ⟨n, reminder, hreminder, hpos, hn⟩
    exact ⟨reminder, hreminder, by omega⟩
  · rintro ⟨reminder, hreminder, hpos⟩
    exact ⟨(h.date.nanosSince reminder).toNat, reminder, hreminder, by omega, by omega⟩

/-- Where there is a day before the start and an hour of reminders, an event has an alarm exactly if
clocks ever show the evening before and the time from then to the start is positive, which it is
if that instant comes first. -/
theorem alarm_iff (hoccasion : occasion.Plain) (hhour : options.reminderHour < 24)
    (ht : text options occasion homework = .ok t) :
    ∃ events, eventsOf? t = some events ∧ List.Forall₂ (fun h event =>
      (options.zone.clock h.date).date.dayBefore.IsValid →
        (event.HasAlarm ↔ ∃ reminder,
          options.zone.IsReminder options.reminderHour h.date reminder ∧
          0 < h.date.nanosSince reminder) ∧
        ∀ reminder, options.zone.IsReminder options.reminderHour h.date reminder →
          reminder.lt h.date = true → event.HasAlarm) homework events := by
  obtain ⟨events, hread, hevents⟩ := eventsOf?_text hoccasion ht
  refine ⟨events, hread, hevents.imp fun h event hevent hday => ?_⟩
  have halarm := hevent.hasAlarm_iff hhour hday
  refine ⟨halarm, fun reminder hreminder hlt => halarm.2 ⟨reminder, hreminder, ?_⟩⟩
  exact Instant.nanosSince_pos hreminder.nano_eq hlt

/-- Homework for the morning on which clocks were put forward. -/
def springHomework : Homework := ⟨"", "", "netl", "1", springMorning, none⟩

/-- Half past five on the evening before it. -/
def springEvening : Instant :=
  ⟨1711816200, 0, by decide, by decide, Instant.zero_nano_lt, by decide⟩

/-- Its event has an alarm. -/
theorem spring_alarm : ∃ t events, text { zone := springZone } desk [springHomework] = .ok t ∧
    eventsOf? t = some events ∧ ∃ event ∈ events, event.HasAlarm := by
  have hok : (text { zone := springZone } desk [springHomework]).isOk = true := by decide +kernel
  have hevening : evening? (springZone.shownAt springMorning) 17 = some 1711819800 := by
    decide +kernel
  have hreminder : springZone.IsReminder 17 springMorning springEvening := by
    refine (isReminder_iff hevening).2 ?_
    decide +kernel
  obtain ⟨t, ht⟩ := Result.exists_eq_ok_of_isOk hok
  obtain ⟨events, hread, hevents⟩ := alarm_iff plain_desk (by decide) ht
  obtain ⟨event, hevent, halarm⟩ :=
    exists_mem_zip_of_forall₂ hevents (List.mem_singleton_self springHomework)
  refine ⟨t, events, ht, hread, event, (List.of_mem_zip hevent).2, ?_⟩
  exact (halarm (by decide +kernel)).2 springEvening hreminder (by decide)

/-- Half past ten in Amsterdam, on the day after that. -/
def aprilMorning : Instant :=
  ⟨1711960200, 0, by decide, by decide, Instant.zero_nano_lt, by decide⟩

/-- Homework for that day. -/
def aprilHomework : Homework := ⟨"", "", "netl", "1", aprilMorning, none⟩

/-- The offsets that clocks in Amsterdam have had. -/
theorem amsterdam_offsetAt_mem (second : Int) :
    Zone.amsterdam.offsetAt second ∈ [1050, 0, 3600, 7200] := by
  have hall : ∀ offset ∈ Zone.amsterdam.offsets, offset ∈ [1050, 0, 3600, 7200] := by
    decide +kernel
  exact hall _ (Zone.offsetAfter_mem _ _ _)

/-- In that night they did not show half past two. -/
theorem amsterdam_skips (second : Int) :
    second + Zone.amsterdam.offsetAt second ≠ 1711852200 := by
  have hnot : ∀ offset ∈ [1050, 0, 3600, 7200],
      Zone.amsterdam.offsetAt (1711852200 - offset) ≠ offset := by decide +kernel
  intro hshown
  apply hnot _ (amsterdam_offsetAt_mem second)
  rw [← hshown, Int.add_sub_cancel]

/-- With reminders at half past two its event has no alarm, although the day before was over. Clocks
did not show half past two on that day, and where the local time does not exist the reminder is
dropped instead of moved. -/
theorem april_no_alarm : ∃ t event, text { reminderHour := 2 } desk [aprilHomework] = .ok t ∧
    eventsOf? t = some [event] ∧ ¬ event.HasAlarm ∧
    (Zone.amsterdam.clock aprilMorning).eveningBefore 2 = ⟨⟨2024, 3, 31⟩, 2, 30, 0, 0⟩ ∧
    ∀ u : Instant, (Zone.amsterdam.clock u).date = ⟨2024, 3, 31⟩ → u.lt aprilMorning = true := by
  have hok : (text { reminderHour := 2 } desk [aprilHomework]).isOk = true := by decide +kernel
  have hevening : evening? (Zone.amsterdam.shownAt aprilMorning) 2 = some 1711852200 := by
    decide +kernel
  have hover : ∀ u : Instant, (Zone.amsterdam.clock u).date = ⟨2024, 3, 31⟩ →
      u.lt aprilMorning = true := by
    intro u hu
    have hcount : Zone.amsterdam.shownAt u / secondsPerDay = 19813 := by
      rw [← Date.toDays_ofDays (Zone.amsterdam.shownAt u / secondsPerDay)]
      exact (congrArg Date.toDays hu).trans (by decide)
    have hoffset : 0 ≤ Zone.amsterdam.offsetAt u.second := by
      have hnonneg : ∀ offset ∈ [1050, 0, 3600, 7200], (0 : Int) ≤ offset := by decide
      exact hnonneg _ (amsterdam_offsetAt_mem u.second)
    have hsecond : aprilMorning.second = 1711960200 := rfl
    rw [Zone.shownAt, secondsPerDay] at hcount
    rw [Instant.lt, Bool.or_eq_true, decide_eq_true_iff]
    left
    omega
  obtain ⟨t, ht⟩ := Result.exists_eq_ok_of_isOk hok
  obtain ⟨event, hread, hevent⟩ := exists_event_of_text plain_desk ht
  refine ⟨t, event, ht, hread, ?_, by decide +kernel, hover⟩
  rw [hevent.hasAlarm_iff (by decide) (by decide +kernel)]
  rintro ⟨reminder, hreminder, -⟩
  have hfound := (isReminder_iff hevening).1 hreminder
  exact amsterdam_skips _ (Zone.earliestShowing?_eq_some_iff.1 hfound).1

end Calendar

end Agenda
