/-
When an alarm goes off.

The trigger of an alarm is the exact time from the reminder to the start, and has a fraction of a
second if the start has one. The stamp of the start has no place for a fraction, so a reader who
counts back from it misses the reminder by that fraction. Where there is none, the two agree: the
trigger is in whole seconds, and it leads from the stamp to the evening before.
-/
import Agenda.Proofs.Calendar.Alarm
import Agenda.Proofs.Time.Stamp

set_option autoImplicit false

namespace Agenda.Calendar

open Scan Numeral

/-! ## The reader -/

/-- A number of whole seconds. -/
def wholeSeconds : Scanner Nat := fun cs => do
  let (seconds, cs) ← number 1 cs.length cs
  let (_, cs) ← mark 'S' cs
  .ok (seconds, cs)

/-- A number of seconds that may have a fraction, in nanoseconds. -/
def fractionalSeconds : Scanner Nat := fun cs => do
  let (seconds, cs) ← number 1 cs.length cs
  let (nano, cs) ← fraction? cs
  let (_, cs) ← mark 'S' cs
  .ok (seconds * nanosPerSecond + nano, cs)

/-- The time before the start that a trigger says. -/
def before? (scan : Scanner Nat) (trigger : List Char) : Option Nat :=
  match "-PT".toList.isPrefixOf? trigger with
  | none => none
  | some seconds =>
    match scan seconds with
    | .ok (n, []) => some n
    | _ => none

/-- The trigger of an alarm counts back in whole seconds, and leads from the stamp of the event to
what clocks show on the evening before. -/
def LeadsToEvening (zone : Zone) (hour : Nat) (start : Instant) (event alarm : Component) : Prop :=
  ∃ trigger stamp seconds written reminder,
    alarm.values "TRIGGER;RELATED=START" = [trigger] ∧
    before? wholeSeconds trigger = some seconds ∧ 0 < seconds ∧
    event.values "DTSTART" = [stamp] ∧
    Timestamp.readForm? Timestamp.compact stamp = some written ∧
    Instant.nanos reminder = written.nanos - seconds * nanosPerSecond ∧
    zone.clock reminder = (zone.clock start).eveningBefore hour

/-! ## Reading what is written -/

/-- The trigger of an alarm. -/
def triggerText (lead : Nat) : List Char := "-PT".toList ++ secondsText lead ++ ['S']

/-- The digits of a fraction, with a point before them, if there is one. -/
def fractionDigits (nanos : Nat) : List Char :=
  if nanos = 0 then [] else '.' :: dropTrailingZeros (padded 9 nanos)

theorem triggerText_eq (lead : Nat) : triggerText lead = "-PT".toList ++
    (ofNat (lead / nanosPerSecond) ++ (fractionDigits (lead % nanosPerSecond) ++ ['S'])) := by
  simp only [triggerText, secondsText, fractionDigits, List.append_assoc]

theorem ends_fractionDigits (nanos : Nat) : Ends (fractionDigits nanos ++ ['S']) := by
  rw [fractionDigits]
  split
  · exact ends_cons rfl
  · exact ends_cons rfl

theorem number_ofNat (n : Nat) {rest : List Char} (hrest : Ends rest) :
    number 1 (ofNat n ++ rest).length (ofNat n ++ rest) = .ok (n, rest) := by
  have hpos := List.length_pos_of_ne_nil (ofNat_ne_nil n)
  rw [number_append (fun c hc => isDigit_of_mem_ofNat hc) hpos
    (by rw [List.length_append]; omega) (.inr hrest), value_ofNat]

/-- The digits of a fraction say it, without the zeros at its end too. -/
theorem fraction?_fractionDigits {nanos : Nat} (hlt : nanos < nanosPerSecond) :
    fraction? (fractionDigits nanos ++ ['S']) = .ok (nanos, ['S']) := by
  rw [fractionDigits]
  split
  · rename_i hzero
    rw [hzero]
    rfl
  · rename_i hne
    obtain ⟨zeros, hzeros⟩ := exists_dropTrailingZeros (padded 9 nanos)
    have hlength := congrArg List.length hzeros
    rw [length_padded (by decide) hlt, List.length_append, List.length_replicate] at hlength
    have hvalue : value (dropTrailingZeros (padded 9 nanos)) * 10 ^ zeros = nanos := by
      rw [← value_append_zeros, ← hzeros, value_padded]
    have hpos : 0 < (dropTrailingZeros (padded 9 nanos)).length := by
      rw [Nat.pos_iff_ne_zero]
      intro hnil
      rw [List.length_eq_zero_iff.1 hnil] at hvalue
      exact hne (hvalue.symm.trans (Nat.zero_mul _))
    have hdigits : ∀ c ∈ dropTrailingZeros (padded 9 nanos), isDigit c = true :=
      fun c hc => isDigit_of_mem_padded (mem_of_mem_dropTrailingZeros hc)
    rw [fraction?_append hdigits hpos (by omega) (ends_cons rfl),
      show 9 - (dropTrailingZeros (padded 9 nanos)).length = zeros by omega, hvalue]

theorem before?_triggerText (scan : Scanner Nat) (lead : Nat) : before? scan (triggerText lead) =
    match scan (ofNat (lead / nanosPerSecond) ++
      (fractionDigits (lead % nanosPerSecond) ++ ['S'])) with
    | .ok (n, []) => some n
    | _ => none := by
  rw [before?, triggerText_eq]
  rfl

/-- A trigger says exactly the lead. -/
theorem before?_fractionalSeconds (lead : Nat) :
    before? fractionalSeconds (triggerText lead) = some lead := by
  have hfraction := fraction?_fractionDigits (Nat.mod_lt lead (show 0 < nanosPerSecond by decide))
  rw [before?_triggerText, fractionalSeconds, number_ofNat _ (ends_fractionDigits _)]
  simp only [Result.ok_bind, hfraction, mark_cons]
  rw [Nat.div_add_mod']

/-- It says whole seconds exactly if the lead has no fraction. -/
theorem before?_wholeSeconds_eq_some_iff {lead seconds : Nat} :
    before? wholeSeconds (triggerText lead) = some seconds ↔ lead = seconds * nanosPerSecond := by
  rw [before?_triggerText, wholeSeconds, number_ofNat _ (ends_fractionDigits _), fractionDigits]
  by_cases hwhole : lead % nanosPerSecond = 0
  · simp only [if_pos hwhole, List.nil_append, Result.ok_bind, mark_cons, Option.some.injEq]
    rw [nanosPerSecond] at hwhole ⊢
    omega
  · -- where the seconds should end there is a point
    have hmark : ∀ rest, mark 'S' ('.' :: rest) = .error .invalid := fun _ => rfl
    simp only [if_neg hwhole, List.cons_append, Result.ok_bind, hmark, Result.error_bind,
      reduceCtorEq, false_iff]
    rintro rfl
    exact hwhole (Nat.mul_mod_left _ _)

/-! ## The trigger and the stamp of an event -/

variable {options : Options} {occasion : Occasion} {h : Homework} {homework : List Homework}
  {event alarm : Component} {t : String}

theorem values_trigger (number : Nat) (title : String) (lead : Nat) :
    (alarmComponent occasion number title lead).values "TRIGGER;RELATED=START" =
      [triggerText lead] := by
  simp (disch := decide) only [Component.values, alarmComponent, alarmOwnLines,
    List.filterMap_cons, List.filterMap_nil, value?_property_of_mem]
  rfl

theorem values_start (number : Nat) (stop : Instant) (lead : Option Nat) :
    (eventComponent occasion number h stop lead).values "DTSTART" = [h.date.stamp] := by
  rw [Component.values, eventComponent, filterMap_ownLines (by decide)]
  simp [ownProperties]

/-- The event of a piece of homework has an alarm for its lead. -/
theorem Schedules.exists_alarm (hevent : Schedules options occasion h event) {lead : Nat}
    (hlead : lead? options.zone options.reminderHour h.date = .ok (some lead)) :
    ∃ alarm, event.inner = [alarm] ∧
      alarm.values "TRIGGER;RELATED=START" = [triggerText lead] ∧
      event.values "DTSTART" = [h.date.stamp] := by
  obtain ⟨number, hstop, hlead'⟩ := hevent
  obtain rfl := Except.ok.inj (hlead'.symm.trans hlead)
  exact ⟨_, rfl, values_trigger _ _ _, values_start _ _ _⟩

/-- It has no other alarm. -/
theorem Schedules.exists_lead (hevent : Schedules options occasion h event)
    (halarm : alarm ∈ event.inner) :
    ∃ lead, lead? options.zone options.reminderHour h.date = .ok (some lead) := by
  obtain ⟨number, hstop, hlead⟩ := hevent
  obtain ⟨lead, rfl, -⟩ := Option.map_eq_some_iff.1 (Option.mem_toList.1 halarm)
  exact ⟨lead, hlead⟩

section

variable {zone : Zone} {hour lead : Nat} {start : Instant}

/-- Outside a leap second the lead is the difference to the reminder. -/
theorem exists_isReminder_of_lead? (hleap : start.isLeap = false)
    (hlead : lead? zone hour start = .ok (some lead)) : 0 < lead ∧ ∃ reminder,
      zone.IsReminder hour start reminder ∧ reminder.nanos = start.nanos - lead := by
  obtain ⟨-, -, -, reminder, hreminder, hpos, hsince⟩ := lead?_eq_some_iff_isReminder.1 hlead
  rw [nanosSince_of_whole hleap hreminder.nano_eq] at hsince
  exact ⟨hpos, reminder, hreminder, by omega⟩

/-- The stamp and the trigger lead to the evening before exactly if the start has no fraction. -/
theorem leadsToEvening_iff (hleap : start.isLeap = false) (hplain : start.IsPlain)
    (hlead : lead? zone hour start = .ok (some lead))
    (htrigger : alarm.values "TRIGGER;RELATED=START" = [triggerText lead])
    (hstamp : event.values "DTSTART" = [start.stamp]) :
    LeadsToEvening zone hour start event alarm ↔ start.nano = 0 := by
  obtain ⟨hpos, reminder, hreminder, hnanos⟩ := exists_isReminder_of_lead? hleap hlead
  have hsub := Instant.nano_lt_of_not_isLeap hleap
  rw [Instant.nanos, Instant.nanos, hreminder.nano_eq] at hnanos
  simp only [nanosPerSecond] at hsub hnanos
  constructor
  · rintro ⟨trigger, _, seconds, _, _, htrigger', hseconds, -⟩
    obtain rfl := List.singleton_inj.1 (htrigger.symm.trans htrigger')
    rw [before?_wholeSeconds_eq_some_iff, nanosPerSecond] at hseconds
    omega
  · intro hwhole
    refine ⟨_, _, (start.second - reminder.second).toNat, _, reminder, htrigger,
      before?_wholeSeconds_eq_some_iff.2 ?_, ?_, hstamp, Instant.readForm?_stamp hplain, ?_,
      hreminder.shows⟩
    · rw [nanosPerSecond]
      omega
    · omega
    · rw [Instant.nanos, Instant.nanos, Instant.nano_wholeSecond hleap, hreminder.nano_eq,
        Instant.second_wholeSecond, nanosPerSecond]
      omega

end

/-- The trigger of an alarm says the exact time from the reminder to the start. Counted back from
the stamp, in whole seconds, it leads to the evening before exactly if the start has no fraction. -/
theorem trigger_exact (hoccasion : occasion.Plain) (ht : text options occasion homework = .ok t) :
    ∃ events, eventsOf? t = some events ∧ List.Forall₂ (fun h event =>
      h.date.isLeap = false → h.date.IsPlain → ∀ alarm ∈ event.inner,
        (∃ trigger lead reminder, alarm.values "TRIGGER;RELATED=START" = [trigger] ∧
          before? fractionalSeconds trigger = some lead ∧ 0 < lead ∧
          options.zone.IsReminder options.reminderHour h.date reminder ∧
          reminder.nanos = h.date.nanos - lead) ∧
        (LeadsToEvening options.zone options.reminderHour h.date event alarm ↔
          h.date.nano = 0)) homework events := by
  obtain ⟨events, hread, hevents⟩ := eventsOf?_text hoccasion ht
  refine ⟨events, hread, hevents.imp fun h event hevent hleap hplain alarm halarm => ?_⟩
  obtain ⟨lead, hlead⟩ := hevent.exists_lead halarm
  obtain ⟨only, hinner, htrigger, hstamp⟩ := hevent.exists_alarm hlead
  obtain rfl : alarm = only := List.mem_singleton.1 (hinner ▸ halarm)
  obtain ⟨hpos, reminder, hreminder, hnanos⟩ := exists_isReminder_of_lead? hleap hlead
  refine ⟨⟨_, lead, reminder, htrigger, before?_fractionalSeconds lead, hpos, hreminder,
    hnanos⟩, ?_⟩
  exact leadsToEvening_iff hleap hplain hlead htrigger hstamp

/-- Homework for a Monday morning. -/
def mondayHomework : Homework := ⟨"", "", "netl", "1", monday, none⟩

/-- Its alarm leads to half past five on the Sunday. The minutes are those of the homework, and the
hour is that of the reminder. -/
theorem monday_leadsToEvening : ∃ t event alarm,
    text { zone := Zone.utc } desk [mondayHomework] = .ok t ∧ eventsOf? t = some [event] ∧
    event.inner = [alarm] ∧ LeadsToEvening Zone.utc 17 monday event alarm := by
  have hok : (text { zone := Zone.utc } desk [mondayHomework]).isOk = true := by decide +kernel
  have hlead : lead? Zone.utc 17 monday = .ok (some 54000000000000) := by decide +kernel
  obtain ⟨t, ht⟩ := Result.exists_eq_ok_of_isOk hok
  obtain ⟨event, hread, hevent⟩ := exists_event_of_text plain_desk ht
  obtain ⟨alarm, hinner, -⟩ := hevent.exists_alarm hlead
  obtain ⟨_, hread', hevents⟩ := trigger_exact plain_desk ht
  obtain rfl := Option.some.inj (hread.symm.trans hread')
  have hmain := (List.forall₂_cons.1 hevents).1 (by decide) (by decide) alarm
    (hinner ▸ List.mem_singleton_self alarm)
  exact ⟨t, event, alarm, ht, hread, hinner, hmain.2.2 rfl⟩

/-- A minute and a quarter of a second later on that morning. -/
def lateMonday : Instant :=
  ⟨1725265860, 250000000, by decide, by decide, by decide, by decide⟩

/-- Homework for that time. -/
def lateHomework : Homework := ⟨"", "", "netl", "1", lateMonday, none⟩

/-- The trigger of its alarm has a fraction, so that it leads nowhere in whole seconds. The start of
the event has lost that fraction already. -/
theorem lateMonday_not_leadsToEvening : ∃ t event alarm,
    text { zone := Zone.utc } desk [lateHomework] = .ok t ∧ eventsOf? t = some [event] ∧
    event.inner = [alarm] ∧ alarm.values "TRIGGER;RELATED=START" = ["-PT54000.25S".toList] ∧
    ¬ LeadsToEvening Zone.utc 17 lateMonday event alarm := by
  have hok : (text { zone := Zone.utc } desk [lateHomework]).isOk = true := by decide +kernel
  have hlead : lead? Zone.utc 17 lateMonday = .ok (some 54000250000000) := by decide +kernel
  obtain ⟨t, ht⟩ := Result.exists_eq_ok_of_isOk hok
  obtain ⟨event, hread, hevent⟩ := exists_event_of_text plain_desk ht
  obtain ⟨alarm, hinner, htrigger, hstamp⟩ := hevent.exists_alarm hlead
  have htext : triggerText 54000250000000 = "-PT54000.25S".toList := by decide +kernel
  refine ⟨t, event, alarm, ht, hread, hinner, ?_, ?_⟩
  · rw [htrigger, htext]
  · rw [leadsToEvening_iff (by decide) (by decide) hlead htrigger hstamp]
    decide

end Agenda.Calendar
