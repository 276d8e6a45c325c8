/-
Events: homework in a calendar, with a reminder on the evening before.

The reminder is set for the day before the start's local day, at a fixed hour and with the start's
minutes and seconds. If clocks show that time twice the earlier one is meant, and if they skip it
there is no reminder; nor is there one that would not come before the start. What remains is the
time from the reminder to the start.
-/
import Agenda.Calendar.Line
import Agenda.Homework
import Agenda.Time.Writer
import Agenda.Time.ZoneTable

set_option autoImplicit false

namespace Agenda.Calendar

/-- How a calendar is to be made. -/
structure Options where
  name : String := "Huiswerk"
  /-- The zone whose evenings are meant. -/
  zone : Zone := Zone.amsterdam
  reminderHour : Nat := 17
  duration : Duration := ⟨3600, by decide⟩

/-- What a calendar takes from the moment in which it is made: the stamp of the clock, and an
identifier for each alarm. -/
structure Occasion where
  now : List Char
  alarmIdentifier : Nat → List Char

/-- Why a calendar cannot be made. -/
inductive Unschedulable where
  /-- An event would end outside the range of instants. -/
  | endOutOfRange
  /-- The local time of a start lies outside the range of dates. -/
  | localTimeOutOfRange
  /-- A line cannot be folded. -/
  | unfoldable (reason : Unfoldable)
deriving DecidableEq

/-! ## Reminders -/

/-- The local second of a reminder for a start that clocks show at `localStart`: the day before,
at the given hour, with the start's minutes and seconds. None if there is no such day or hour. -/
def evening? (localStart : Int) (hour : Nat) : Option Int :=
  let day := localStart / secondsPerDay - 1
  let second := day * secondsPerDay + hour * 3600 + localStart % 3600
  if Instant.firstSecond ≤ day * secondsPerDay ∧ hour < 24 then some second else none

/-- The time from the reminder to the start in nanoseconds, if there is a reminder. -/
def lead? (zone : Zone) (hour : Nat) (start : Instant) : Except Unschedulable (Option Nat) :=
  let localStart := start.second + zone.offsetAt start.second
  if localStart < Instant.firstSecond ∨ Instant.lastSecond < localStart then
    .error .localTimeOutOfRange
  else
    .ok do
      let reminder ← zone.earliestShowing? (← evening? localStart hour)
      let lead := start.nanosSince reminder
      if 0 < lead then some lead.toNat else none

/-- A time in seconds, with as many fraction digits as it needs. -/
def secondsText (nanos : Nat) : List Char :=
  let fraction := nanos % nanosPerSecond
  Numeral.ofNat (nanos / nanosPerSecond) ++
    if fraction = 0 then []
    else '.' :: Numeral.dropTrailingZeros (Numeral.padded 9 fraction)

/-! ## Lines -/

/-- A line with a name and a value. -/
def property (name : String) (value : List Char) : List Char := name.toList ++ ':' :: value

/-- The lines of the alarm that comes so many nanoseconds before the start. -/
def alarmLines (occasion : Occasion) (number : Nat) (title : String) (lead : Nat) :
    List (List Char) :=
  [property "BEGIN" "VALARM".toList,
    property "DTSTAMP" occasion.now,
    property "ACTION" "DISPLAY".toList,
    property "DESCRIPTION" (escape title),
    property "TRIGGER;RELATED=START" ("-PT".toList ++ secondsText lead ++ ['S']),
    property "UID" (occasion.alarmIdentifier number),
    property "END" "VALARM".toList]

/-- The identifier of the event for a piece of homework. -/
def eventIdentifier (h : Homework) : String := h.identifier ++ "@huiswerk-ical"

/-- The lines of the event for a piece of homework, the properties in order of their names. -/
def eventLines (options : Options) (occasion : Occasion) (number : Nat) (h : Homework) :
    Except Unschedulable (List (List Char)) := do
  let stop ← match h.date.addSeconds? options.duration.seconds with
    | some t => .ok t
    | none => .error .endOutOfRange
  let lead ← lead? options.zone options.reminderHour h.date
  let created := match h.created with
    | some t => t.stamp
    | none => occasion.now
  let alarm := match lead with
    | some lead => alarmLines occasion number h.title lead
    | none => []
  .ok ([property "BEGIN" "VEVENT".toList,
    property "DESCRIPTION" (escape h.body),
    property "DTEND" stop.stamp,
    property "DTSTAMP" created,
    property "DTSTART" h.date.stamp,
    property "SUMMARY" (escape h.title),
    property "UID" (escape (eventIdentifier h))] ++ alarm ++ [property "END" "VEVENT".toList])

end Agenda.Calendar
