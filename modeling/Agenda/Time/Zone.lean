/-
Time zones.

A zone gives every instant an offset: the initial one until its first change, and after each
change the one that the change brings. Where clocks are put back a local time is shown twice, and
where they are put forward some are not shown at all; so the way from a local time to instants is
to look, among the offsets that the zone ever has, for those under which an instant shows just
that time.
-/
import Agenda.Time.Instant

set_option autoImplicit false

namespace Agenda

/-- The second in UTC from which on a new offset holds, and that offset in seconds. -/
structure Zone.Change where
  start : Int
  offset : Int

/-- An initial offset in seconds, and changes in order. Clocks are never a whole day away from UTC,
so a local time is at most a day off the range of instants. -/
structure Zone where
  initial : Int
  changes : List Zone.Change
  withinDay : ∀ offset ∈ initial :: changes.map Zone.Change.offset, offset.natAbs < secondsPerDay

namespace Zone

/-- The offset in force at a second, given the one before the changes. -/
def offsetAfter (offset : Int) : List Change → Int → Int
  | [], _ => offset
  | change :: rest, second =>
    if change.start ≤ second then offsetAfter change.offset rest second else offset

/-- The offset that holds at a second in UTC. -/
def offsetAt (z : Zone) (second : Int) : Int := offsetAfter z.initial z.changes second

/-- Every offset that the zone ever has. -/
def offsets (z : Zone) : List Int := z.initial :: z.changes.map Change.offset

/-- The seconds in UTC at which clocks of the zone show a local second. -/
def secondsShowing (z : Zone) (localSecond : Int) : List Int :=
  (z.offsets.map fun offset => localSecond - offset).filter fun second =>
    second + z.offsetAt second = localSecond

/-- The earliest instant at which clocks of the zone show a local second, if there is one. -/
def earliestShowing? (z : Zone) (localSecond : Int) : Option Instant := do
  Instant.ofParts? (← (z.secondsShowing localSecond).min?) 0

end Zone

end Agenda
