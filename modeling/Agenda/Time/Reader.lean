/-
Reading instants.

A document spells a moment in one of five forms, tried in turn: RFC 3339 as it stands, a date and
time with an offset whose separator may be missing, a date and time without an offset (with `T` or
with blanks between them), and a bare date. Apart from the first they allow blanks before every
number, and numbers with fewer digits. Without an offset the moment is taken as UTC, and all of
them are cut to the millisecond.

Converted documents are read back by a sixth, more permissive form, which says what is wrong with
a text that it refuses.
-/
import Agenda.Time.Scanner

set_option autoImplicit false

namespace Agenda

open Scan

namespace Timestamp

/-- RFC 3339: fixed widths throughout, and an offset or `Z`. -/
def internet : Scanner CivilTime := fun cs => do
  let (year, cs) ← number 4 4 cs
  let (_, cs) ← mark '-' cs
  let (month, cs) ← bounded 1 12 (number 2 2) cs
  let (_, cs) ← mark '-' cs
  let (day, cs) ← bounded 1 31 (number 2 2) cs
  let (_, cs) ← dateEnd cs
  let (hour, cs) ← bounded 0 23 (number 2 2) cs
  let (_, cs) ← mark ':' cs
  let (minute, cs) ← bounded 0 59 (number 2 2) cs
  let (_, cs) ← mark ':' cs
  let (second, cs) ← bounded 0 60 (number 2 2) cs
  let (nano, cs) ← fraction? cs
  let (offset, cs) ← offsetOrZulu (mark ':') cs
  .ok (⟨⟨year, month, day⟩, hour, minute, second, nano, offset⟩, cs)

/-- A date with loose numbers. -/
def looseDate : Scanner Date := fun cs => do
  let (year, cs) ← looseYear cs
  let (_, cs) ← mark '-' cs
  let (month, cs) ← looseNumber 1 12 cs
  let (_, cs) ← mark '-' cs
  let (day, cs) ← looseNumber 1 31 cs
  .ok (⟨year, month, day⟩, cs)

/-- A time of day with loose numbers and an optional fraction, on a date and without an offset. -/
def looseClock (date : Date) : Scanner CivilTime := fun cs => do
  let (hour, cs) ← looseNumber 0 23 cs
  let (_, cs) ← mark ':' cs
  let (minute, cs) ← looseNumber 0 59 cs
  let (_, cs) ← mark ':' cs
  let (second, cs) ← looseNumber 0 60 cs
  let (nano, cs) ← fraction? cs
  .ok (⟨date, hour, minute, second, nano, 0⟩, cs)

/-- A date and time of day joined by `T`. -/
def joined : Scanner CivilTime := fun cs => do
  let (date, cs) ← looseDate cs
  let (_, cs) ← mark 'T' cs
  looseClock date cs

/-- A date and time of day joined by `T`, and an offset. -/
def joinedWithOffset : Scanner CivilTime := fun cs => do
  let (civil, cs) ← joined cs
  let (offset, cs) ← offset colonsAndBlanks (dropBlanks cs)
  .ok ({ civil with offset }, cs)

/-- A date and time of day with blanks between them. -/
def spaced : Scanner CivilTime := fun cs => do
  let (date, cs) ← looseDate cs
  looseClock date (dropBlanks cs)

/-- A date alone, which is its midnight. -/
def dateOnly : Scanner CivilTime := fun cs => do
  let (date, cs) ← looseDate cs
  .ok (⟨date, 0, 0, 0, 0, 0⟩, cs)

/-- The forms in the order in which they are tried. -/
def forms : List (Scanner CivilTime) := [internet, joinedWithOffset, joined, spaced, dateOnly]

/-- The instant that a text spells in one form, if nothing is left over. -/
def readForm? (form : Scanner CivilTime) (cs : List Char) : Option Instant :=
  match form cs with
  | .ok (civil, []) => civil.instant.toOption
  | _ => none

/-- The instant that a text spells, cut to the millisecond. Blanks around it do not count. -/
def read? (text : String) : Option Instant :=
  (forms.findSome? (readForm? · (trimBlanks text.toList))).map Instant.truncate

end Timestamp

namespace Instant

/-- The letters for UTC, in either case, or an offset or `Z`. -/
def lenientOffset : Scanner Int := fun cs =>
  match cs with
  | u :: t :: c :: rest =>
    if (u = 'U' ∨ u = 'u') ∧ (t = 'T' ∨ t = 't') ∧ (c = 'C' ∨ c = 'c') then .ok (0, rest)
    else offsetOrZulu colonsAndBlanks cs
  | _ => offsetOrZulu colonsAndBlanks cs

/-- The form in which instants of converted documents are read: blanks may stand before numbers,
marks and the offset. -/
def lenient : Scanner CivilTime := fun cs => do
  let (year, cs) ← looseYear cs
  let (_, cs) ← mark '-' (dropBlanks cs)
  let (month, cs) ← looseNumber 1 12 cs
  let (_, cs) ← mark '-' (dropBlanks cs)
  let (day, cs) ← looseNumber 1 31 cs
  let (_, cs) ← dateEnd cs
  let (hour, cs) ← looseNumber 0 23 cs
  let (_, cs) ← mark ':' (dropBlanks cs)
  let (minute, cs) ← looseNumber 0 59 cs
  let (_, cs) ← mark ':' (dropBlanks cs)
  let (second, cs) ← looseNumber 0 60 cs
  let (nano, cs) ← fraction? cs
  let (offset, cs) ← lenientOffset (dropBlanks cs)
  .ok (⟨⟨year, month, day⟩, hour, minute, second, nano, offset⟩, cs)

/-- The instant that a text spells, or the first thing that is wrong with it. -/
def ofText (text : String) : Except Unreadable Instant := do
  let (civil, rest) ← lenient text.toList
  match dropBlanks rest with
  | [] => civil.instant
  | _ => .error .tooLong

end Instant

end Agenda
