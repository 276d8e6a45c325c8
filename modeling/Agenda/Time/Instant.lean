/-
Instants: seconds since 1970-01-01T00:00:00Z and a fraction in nanoseconds.

A leap second has no second of its own. It lies on top of a second `:59`, as a fraction of one
second or more, so instants stay ordered by their two components and every day keeps 86400
seconds. The years that dates can have bound the seconds.
-/
import Agenda.Time.Date

set_option autoImplicit false

namespace Agenda

/-- The number of nanoseconds in a second. -/
def nanosPerSecond : Nat := 1000000000

/-- The number of seconds in a day. -/
def secondsPerDay : Int := 86400

/-- The first second there is: the beginning of the first year. -/
def Instant.firstSecond : Int := -8334601228800

/-- The last second there is: the end of the last year. -/
def Instant.lastSecond : Int := 8210266876799

/-- A moment in time. A fraction of a second or more marks a leap second. -/
structure Instant where
  second : Int
  nano : Nat
  first_le : Instant.firstSecond ≤ second
  le_last : second ≤ Instant.lastSecond
  nano_lt : nano < 2 * nanosPerSecond
  leap : nanosPerSecond ≤ nano → second % 60 = 59
deriving DecidableEq

namespace Instant

/-- The instant with these components, if there is one. -/
def ofParts? (second : Int) (nano : Nat) : Option Instant :=
  if h : firstSecond ≤ second ∧ second ≤ lastSecond ∧ nano < 2 * nanosPerSecond ∧
      (nanosPerSecond ≤ nano → second % 60 = 59) then
    some ⟨second, nano, h.1, h.2.1, h.2.2.1, h.2.2.2⟩
  else none

/-- Whether this is a leap second. -/
def isLeap (t : Instant) : Bool := nanosPerSecond ≤ t.nano

/-- Earlier instants come first. -/
def lt (t u : Instant) : Bool := t.second < u.second || (t.second = u.second && t.nano < u.nano)

/-- The number of nanoseconds in a millisecond. -/
def nanosPerMilli : Nat := 1000000

theorem zero_nano_lt : 0 < 2 * nanosPerSecond := by decide

theorem wholeMillis_nano_lt (t : Instant) :
    t.nano - t.nano % nanosPerMilli < 2 * nanosPerSecond := by
  have := t.nano_lt
  omega

/-- What is left of a leap second is more than a second only if the leap second was. -/
theorem wholeMillis_leap (t : Instant) (h : nanosPerSecond ≤ t.nano - t.nano % nanosPerMilli) :
    t.second % 60 = 59 := t.leap (by omega)

/-- Drops everything below the millisecond. A leap second after the last second there is stays as it
is, since nothing lies there that could be looked up again. -/
def truncate (t : Instant) : Instant :=
  if t.second = lastSecond ∧ nanosPerSecond ≤ t.nano then t
  else
    { t with
      nano := t.nano - t.nano % nanosPerMilli
      nano_lt := t.wholeMillis_nano_lt
      leap := t.wholeMillis_leap }

/-! ## Days and times of day -/

/-- The number of the day, 1970-01-01 being day 0. -/
def dayNumber (t : Instant) : Int := t.second / secondsPerDay

/-- The second of the day, from 0 to 86399. -/
def secondOfDay (t : Instant) : Nat := (t.second % secondsPerDay).toNat

/-- The calendar date. -/
def date (t : Instant) : Date := Date.ofDays t.dayNumber

/-- The year of the calendar date. -/
def year (t : Instant) : Int := t.date.year

/-! ## Moving and measuring -/

/-- The instant so many seconds later, if there is one. Leaving a leap second forwards counts from
the second below it, leaving it backwards from the second after it. -/
def addSeconds? (t : Instant) (seconds : Int) : Option Instant :=
  if t.isLeap then
    if seconds = 0 then some t
    else
      let base := if 0 < seconds then t.second else t.second + 1
      ofParts? (base + seconds) (t.nano - nanosPerSecond)
  else ofParts? (t.second + seconds) t.nano

/-- The nanoseconds from one instant to another. A leap second on the earlier side counts in full
once the later side stands at a later time of day, and one on the later side does not count while
the earlier side stands at a later time of day. -/
def nanosSince (t u : Instant) : Int :=
  let adjust : Int :=
    if u.secondOfDay < t.secondOfDay then if u.isLeap then 1 else 0
    else if t.secondOfDay < u.secondOfDay then if t.isLeap then -1 else 0
    else 0
  (t.second - u.second + adjust) * nanosPerSecond + t.nano - u.nano

end Instant

/-! ## Durations -/

/-- The bound of a duration in seconds, which is that of 64-bit milliseconds. -/
def Duration.bound : Int := 9223372036854775

/-- A whole number of seconds, in either direction. -/
structure Duration where
  seconds : Int
  bounded : -Duration.bound ≤ seconds ∧ seconds ≤ Duration.bound
deriving DecidableEq

/-- The duration of so many seconds, if there is one. -/
def Duration.ofSeconds? (seconds : Int) : Option Duration :=
  if h : -Duration.bound ≤ seconds ∧ seconds ≤ Duration.bound then some ⟨seconds, h⟩ else none

/-- The duration of so many minutes, if there is one. -/
def Duration.ofMinutes? (minutes : Int) : Option Duration := ofSeconds? (minutes * 60)

end Agenda
