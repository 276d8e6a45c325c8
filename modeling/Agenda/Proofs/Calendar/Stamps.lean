/-
What the stamps of an event say.

The start of an event and its end are moments with fractions, and stamps have no place for one. Both
fractions are the same and both are cut off, so that the stamps are exactly the duration apart, be
it negative or nothing, and before 1970 as well: what is cut off always lies after the second. Only
in years of four digits has a stamp the form in which calendars are read.
-/
import Agenda.Proofs.Calendar.Trigger

set_option autoImplicit false

namespace Agenda.Calendar

variable {options : Options} {occasion : Occasion} {h : Homework} {event : Component}
  {stop t : Instant}

/-! ## Reading a stamp -/

/-- An event has one value of this name. It has the form of a stamp and is read as this moment. -/
def Component.Says (event : Component) (name : String) (t : Instant) : Prop :=
  ∃ stamp, event.values name = [stamp] ∧ Instant.IsStamp stamp ∧
    Timestamp.readForm? Timestamp.compact stamp = some t

/-- An event has one value of this name, and it has not the form of a stamp. -/
def Component.Garbles (event : Component) (name : String) : Prop :=
  ∃ stamp, event.values name = [stamp] ∧ ¬ Instant.IsStamp stamp

/-- In a plain year a stamp says the moment without its fraction. -/
theorem says_of_stamp {name : String} (hvalues : event.values name = [t.stamp])
    (hplain : t.IsPlain) : event.Says name t.wholeSecond :=
  ⟨t.stamp, hvalues, Instant.isStamp_stamp hplain, Instant.readForm?_stamp hplain⟩

/-- In any other year it has another form. -/
theorem garbles_of_stamp {name : String} (hvalues : event.values name = [t.stamp])
    (hplain : ¬ t.IsPlain) : event.Garbles name :=
  ⟨t.stamp, hvalues, fun hstamp => hplain (Instant.isStamp_stamp_iff.1 hstamp)⟩

/-! ## The stamps that are written -/

theorem values_stop (number : Nat) (stop : Instant) (lead : Option Nat) :
    (eventComponent occasion number h stop lead).values "DTEND" = [stop.stamp] := by
  rw [Component.values, eventComponent, filterMap_ownLines (by decide)]
  simp [ownProperties]

theorem values_created (number : Nat) (stop : Instant) (lead : Option Nat) :
    (eventComponent occasion number h stop lead).values "DTSTAMP" =
      [createdStamp occasion h] := by
  rw [Component.values, eventComponent, filterMap_ownLines (by decide)]
  simp [ownProperties]

/-- The event of a piece of homework has its stamps. -/
theorem Schedules.exists_stop (hevent : Schedules options occasion h event) :
    ∃ stop, h.date.addSeconds? options.duration.seconds = some stop ∧
      event.values "DTSTART" = [h.date.stamp] ∧ event.values "DTEND" = [stop.stamp] ∧
      event.values "DTSTAMP" = [createdStamp occasion h] := by
  obtain ⟨number, hstop, hlead⟩ := hevent
  exact ⟨_, hstop, values_start _ _ _, values_stop _ _ _, values_created _ _ _⟩

/-! ## Rounding down -/

/-- Outside a leap second the whole second is the moment rounded down, whatever its sign. -/
theorem nanos_wholeSecond_bounds (hleap : t.isLeap = false) :
    t.wholeSecond.nanos ≤ t.nanos ∧ t.nanos < t.wholeSecond.nanos + nanosPerSecond := by
  have hlt := Instant.nano_lt_of_not_isLeap hleap
  rw [Instant.nanos, Instant.nanos, Instant.second_wholeSecond, Instant.nano_wholeSecond hleap]
  omega

/-- The fractions of a start and its end cancel. -/
theorem nanos_wholeSecond_sub {seconds : Int} (hleap : t.isLeap = false)
    (hstop : t.addSeconds? seconds = some stop) :
    stop.wholeSecond.nanos - t.wholeSecond.nanos = seconds * nanosPerSecond := by
  obtain ⟨hsecond, hnano⟩ := (Instant.addSeconds?_eq_some_iff hleap).1 hstop
  have hleap' : stop.isLeap = false := by
    rw [Instant.isLeap, hnano]
    exact hleap
  rw [Instant.nanos, Instant.nanos, Instant.second_wholeSecond, Instant.second_wholeSecond,
    Instant.nano_wholeSecond hleap, Instant.nano_wholeSecond hleap', hsecond, nanosPerSecond]
  omega

/-! ## The times of an event -/

/-- The stamps of an event say its times: the start rounded down to its second, and an end that is
exactly the duration away from that. -/
def SaysTimes (duration : Duration) (h : Homework) (event : Component) : Prop :=
  ∃ first last : Instant, event.Says "DTSTART" first ∧ event.Says "DTEND" last ∧
    first.nano = 0 ∧ first.nanos ≤ h.date.nanos ∧ h.date.nanos < first.nanos + nanosPerSecond ∧
    last.nanos - first.nanos = duration.seconds * nanosPerSecond

/-- The date of a piece of homework and the end of its event lie in plain years. -/
def WithinPlainYears (duration : Duration) (h : Homework) : Prop :=
  h.date.IsPlain ∧ ∃ stop, h.date.addSeconds? duration.seconds = some stop ∧ stop.IsPlain

/-- What the stamps of an event say, in plain years and in others. -/
structure StampsExact (duration : Duration) (h : Homework) (event : Component) : Prop where
  times : h.date.isLeap = false → WithinPlainYears duration h → SaysTimes duration h event
  created : ∀ t, h.created = some t → t.IsPlain → event.Says "DTSTAMP" t.wholeSecond
  far_start : ¬ h.date.IsPlain → event.Garbles "DTSTART"
  far_stop : (∀ stop, h.date.addSeconds? duration.seconds = some stop → ¬ stop.IsPlain) →
    event.Garbles "DTEND"
  far_created : ∀ t, h.created = some t → ¬ t.IsPlain → event.Garbles "DTSTAMP"

theorem Schedules.stampsExact (hevent : Schedules options occasion h event) :
    StampsExact options.duration h event := by
  obtain ⟨stop, hstop, hvalueStart, hvalueStop, hvalueCreated⟩ := hevent.exists_stop
  have hcreated : ∀ t, h.created = some t → event.values "DTSTAMP" = [t.stamp] := by
    intro t ht
    rw [hvalueCreated, createdStamp, ht]
  constructor
  case times =>
    intro hleap hyears
    obtain ⟨hplain, stop', hstop', hplain'⟩ := hyears
    obtain rfl : stop = stop' := Option.some.inj (hstop.symm.trans hstop')
    have hbounds := nanos_wholeSecond_bounds hleap
    exact ⟨_, _, says_of_stamp hvalueStart hplain, says_of_stamp hvalueStop hplain',
      Instant.nano_wholeSecond hleap, hbounds.1, hbounds.2, nanos_wholeSecond_sub hleap hstop⟩
  case created =>
    intro t ht hplain
    exact says_of_stamp (hcreated t ht) hplain
  case far_start =>
    intro hplain
    exact garbles_of_stamp hvalueStart hplain
  case far_stop =>
    intro hplain
    exact garbles_of_stamp hvalueStop (hplain stop hstop)
  case far_created =>
    intro t ht hplain
    exact garbles_of_stamp (hcreated t ht) hplain

/-- In plain years an event is there under any zone: those years are far from the ends of the range,
and no clocks are more than a day away. -/
theorem schedulable_of_withinPlainYears (hyears : WithinPlainYears options.duration h) :
    Schedulable options h := by
  obtain ⟨hplain, stop, hstop, -⟩ := hyears
  have hoffset := options.zone.natAbs_offsetAt_lt h.date.second
  have hbounds := Instant.second_bounds hplain
  refine ⟨⟨stop, hstop⟩, ?_, ?_⟩
  · omega
  · omega

/-- Every event that is written has stamps that say its times, and every event in plain years can be
written. -/
theorem stamps_exact (hoccasion : occasion.Plain) :
    (∀ (number : Nat) (h : Homework), WithinPlainYears options.duration h →
      ∃ event : Component, eventLines options occasion number h = .ok event.lines ∧
        StampsExact options.duration h event) ∧
    ∀ (homework : List Homework) (t : String), text options occasion homework = .ok t →
      ∃ events, eventsOf? t = some events ∧
        List.Forall₂ (StampsExact options.duration) homework events := by
  constructor
  · intro number h hyears
    obtain ⟨ls, hls⟩ := (exists_eventLines_iff options occasion number h).2
      (schedulable_of_withinPlainYears hyears)
    obtain ⟨event, hevent, rfl⟩ := exists_schedules_of_eventLines hls
    exact ⟨event, hls, hevent.stampsExact⟩
  · intro homework t ht
    obtain ⟨events, hread, hevents⟩ := eventsOf?_text hoccasion ht
    exact ⟨events, hread, hevents.imp fun _ _ hevent => hevent.stampsExact⟩

/-- A moment in the last second before 1970. -/
def lastMoment : Instant := ⟨-1, 625000000, by decide, by decide, by decide, by decide⟩

/-- Homework for that moment. -/
def lastHomework : Homework := ⟨"", "", "netl", "1", lastMoment, some lastMoment⟩

/-- Events that end a day before they begin. -/
def endingEarlier : Options := { zone := Zone.utc, duration := ⟨-86400, by decide⟩ }

/-- The start is rounded down, away from 1970, and the end is a whole day before it. -/
theorem lastMoment_stamps_exact : ∃ t event, text endingEarlier desk [lastHomework] = .ok t ∧
    eventsOf? t = some [event] ∧ event.values "DTSTART" = ["19691231T235959Z".toList] ∧
    event.values "DTEND" = ["19691230T235959Z".toList] ∧
    SaysTimes endingEarlier.duration lastHomework event ∧
    event.Says "DTSTAMP" lastMoment.wholeSecond := by
  have hok : (text endingEarlier desk [lastHomework]).isOk = true := by decide +kernel
  obtain ⟨t, ht⟩ := Result.exists_eq_ok_of_isOk hok
  obtain ⟨event, hread, hevent⟩ := exists_event_of_text plain_desk ht
  obtain ⟨stop, hstop, hvalueStart, hvalueStop, -⟩ := hevent.exists_stop
  obtain rfl : stop =
      ⟨-86401, 625000000, by decide, by decide, by decide, by decide⟩ :=
    Option.some.inj (hstop.symm.trans (by decide +kernel))
  have hyears : WithinPlainYears endingEarlier.duration lastHomework :=
    ⟨by decide +kernel, _, hstop, by decide +kernel⟩
  obtain ⟨_, hread', hevents⟩ := (stamps_exact plain_desk).2 _ t ht
  obtain rfl := Option.some.inj (hread.symm.trans hread')
  have hexact := (List.forall₂_cons.1 hevents).1
  refine ⟨t, event, ht, hread, ?_, ?_, hexact.times (by decide) hyears,
    hexact.created lastMoment rfl (by decide +kernel)⟩
  · rw [hvalueStart]
    decide +kernel
  · rw [hvalueStop]
    decide +kernel

end Agenda.Calendar
