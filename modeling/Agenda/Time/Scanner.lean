/-
Scanning dates and times of day.

Every form of a date and time is a sequence of small scanners over the characters that are left.
What the forms share is here: numbers with a greatest width, marks, fractions and offsets; and
what a complete text says, which becomes an instant if there is such a day and such a moment. A
scanner reports the first thing that is wrong, since one of the readers says which it was.
-/
import Agenda.Text.Blank
import Agenda.Text.Numeral
import Agenda.Time.Instant

set_option autoImplicit false

namespace Agenda

/-- Why a text is not a date and time. -/
inductive Unreadable where
  | tooShort
  | invalid
  | outOfRange
  | tooLong
  | impossible
deriving DecidableEq

/-- The wording of a reason. -/
def Unreadable.message : Unreadable → String
  | tooShort => "premature end of input"
  | invalid => "input contains invalid characters"
  | outOfRange => "input is out of range"
  | tooLong => "trailing input"
  | impossible => "no possible date and time matching input"

/-- A day, a time of day with second 60 for a leap second, and the offset from UTC in seconds. -/
structure CivilTime where
  date : Date
  hour : Nat
  minute : Nat
  second : Nat
  nano : Nat
  offset : Int
deriving DecidableEq

/-- The instant that a civil time denotes: its day must exist, its offset must be less than a day,
and the moment must lie in range. -/
def CivilTime.instant (c : CivilTime) : Except Unreadable Instant :=
  if ¬ c.date.IsValid then .error .outOfRange
  else if secondsPerDay ≤ c.offset.natAbs then .error .outOfRange
  else
    let leap := c.second = 60
    let second : Int := c.date.toDays * secondsPerDay + c.hour * 3600 + c.minute * 60 +
      (if leap then 59 else c.second) - c.offset
    match Instant.ofParts? second (if leap then c.nano + nanosPerSecond else c.nano) with
    | some t => .ok t
    | none => .error .impossible

namespace Scan

/-- A step of scanning: a result and what is left. -/
abbrev Scanner (α : Type) := List Char → Except Unreadable (α × List Char)

/-- A number of at least `least` and at most `most` digits. -/
def number (least most : Nat) : Scanner Nat := fun cs =>
  let digits := (cs.take most).takeWhile Numeral.isDigit
  if digits.length < least then .error (if cs.length < least then .tooShort else .invalid)
  else .ok (Numeral.value digits, cs.drop digits.length)

/-- A mark that must stand here. -/
def mark (m : Char) : Scanner Unit := fun cs =>
  match cs with
  | [] => .error .tooShort
  | c :: rest => if c = m then .ok ((), rest) else .error .invalid

/-- A number that lies between two bounds. -/
def bounded (low high : Nat) (scan : Scanner Nat) : Scanner Nat := fun cs => do
  let (n, rest) ← scan cs
  if low ≤ n ∧ n ≤ high then .ok (n, rest) else .error .outOfRange

/-- The digits after a point as nanoseconds; those beyond the ninth are skipped. -/
def nanoseconds : Scanner Nat := fun cs => do
  let (n, rest) ← number 1 9 cs
  let width := cs.length - rest.length
  .ok (n * Nat.pow 10 (9 - width), rest.dropWhile Numeral.isDigit)

/-- A fraction, if a point stands here. -/
def fraction? : Scanner Nat := fun cs =>
  match cs with
  | '.' :: rest => nanoseconds rest
  | _ => .ok (0, cs)

/-- The marks between a date and a time of day. -/
def isDateEnd (c : Char) : Bool := c = 'T' || c = 't' || c = ' '

/-- A mark between a date and a time of day. -/
def dateEnd : Scanner Unit := fun cs =>
  match cs with
  | [] => .error .tooShort
  | c :: rest => if isDateEnd c then .ok ((), rest) else .error .invalid

/-- A sign of an offset; the minus may be the mathematical one. -/
def offsetSign : Scanner Bool := fun cs =>
  match cs with
  | [] => .error .tooShort
  | c :: rest =>
    if c = '+' then .ok (false, rest)
    else if c = '-' ∨ c = '\u2212' then .ok (true, rest)
    else .error .invalid

/-- Two digits. One character too few is noticed only if it is a single byte. -/
def twoDigits : Scanner Nat := fun cs =>
  match cs with
  | a :: b :: rest =>
    match Numeral.digit? a, Numeral.digit? b with
    | some x, some y => .ok (x * 10 + y, rest)
    | _, _ => .error .invalid
  | [a] => .error (if a.utf8Size < 2 then .tooShort else .invalid)
  | [] => .error .tooShort

/-- A signed offset in hours and minutes, with a separator of the given kind between them. -/
def offset (separator : Scanner Unit) : Scanner Int := fun cs => do
  let (negative, cs) ← offsetSign cs
  let (hours, cs) ← twoDigits cs
  let (_, cs) ← separator cs
  let (minutes, cs) ← bounded 0 59 twoDigits cs
  let seconds : Int := hours * 3600 + minutes * 60
  .ok (if negative then -seconds else seconds, cs)

/-- An offset, or the letter that stands for none. -/
def offsetOrZulu (separator : Scanner Unit) : Scanner Int := fun cs =>
  match cs with
  | 'Z' :: rest => .ok (0, rest)
  | 'z' :: rest => .ok (0, rest)
  | _ => offset separator cs

/-- Any run of colons and blanks. -/
def colonsAndBlanks : Scanner Unit := fun cs =>
  .ok ((), cs.dropWhile fun c => c = ':' || isBlank c)

/-- Years are kept in 32 bits. -/
def yearBound : Int := 2147483648

/-- A year after blanks: four digits at most, or a sign and any number of digits. -/
def looseYear : Scanner Int := fun cs => do
  let cs := dropBlanks cs
  let (year, rest) ← (match cs with
    | '-' :: digits => do
      let (n, rest) ← number 1 digits.length digits
      .ok (-(n : Int), rest)
    | '+' :: digits => do
      let (n, rest) ← number 1 digits.length digits
      .ok ((n : Int), rest)
    | _ => do
      let (n, rest) ← number 1 4 cs
      .ok ((n : Int), rest) : Except Unreadable (Int × List Char))
  if -yearBound ≤ year ∧ year < yearBound then .ok (year, rest) else .error .outOfRange

/-- A number of one or two digits after blanks, within bounds. -/
def looseNumber (low high : Nat) : Scanner Nat := fun cs =>
  bounded low high (number 1 2) (dropBlanks cs)

end Scan

end Agenda
