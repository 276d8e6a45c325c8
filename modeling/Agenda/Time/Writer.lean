/-
Writing instants.

Three forms share their pieces. The canonical text has milliseconds, the exact text as many groups
of three fraction digits as the instant needs, and the stamp neither a fraction nor separators. A
year of four digits is written plainly; any other takes a sign. A leap second shows as second 60.
-/
import Agenda.Text.Numeral
import Agenda.Time.Instant

set_option autoImplicit false

namespace Agenda

/-- The years that are written without a sign. -/
def Date.plainYears : Int × Int := (0, 9999)

/-- A year: four digits, with a sign outside the plain years. -/
def Date.yearText (year : Int) : List Char :=
  if plainYears.1 ≤ year ∧ year ≤ plainYears.2 then Numeral.padded 4 year.natAbs
  else (if year < 0 then '-' else '+') :: Numeral.padded 4 year.natAbs

/-- A date with a separator between its parts. -/
def Date.text (separator : List Char) (d : Date) : List Char :=
  yearText d.year ++ separator ++ Numeral.padded 2 d.month ++ separator ++ Numeral.padded 2 d.day

namespace Instant

/-- The time of day with a separator between its parts. -/
def clockText (separator : List Char) (t : Instant) : List Char :=
  let s := t.secondOfDay
  let shown := s % 60 + (if t.isLeap then 1 else 0)
  Numeral.padded 2 (s / 3600) ++ separator ++ Numeral.padded 2 (s / 60 % 60) ++ separator ++
    Numeral.padded 2 shown

/-- The nanoseconds within the second that is shown. -/
def fraction (t : Instant) : Nat := t.nano % nanosPerSecond

/-- A date and a time of day with a fraction and the letter for UTC. -/
def withFraction (fractionText : List Char) (t : Instant) : List Char :=
  t.date.text ['-'] ++ 'T' :: (t.clockText [':'] ++ fractionText ++ ['Z'])

/-- The canonical text, with milliseconds: `2024-09-01T10:00:00.000Z`. -/
def canonical (t : Instant) : List Char :=
  t.withFraction ('.' :: Numeral.padded 3 (t.fraction / 1000000))

/-- The text with 0, 3, 6 or 9 fraction digits, as many as are needed. -/
def exact (t : Instant) : List Char :=
  t.withFraction
    (if t.fraction = 0 then []
    else if t.fraction % 1000000 = 0 then '.' :: Numeral.padded 3 (t.fraction / 1000000)
    else if t.fraction % 1000 = 0 then '.' :: Numeral.padded 6 (t.fraction / 1000)
    else '.' :: Numeral.padded 9 t.fraction)

/-- The stamp of a calendar: `20240901T100000Z`. -/
def stamp (t : Instant) : List Char := t.date.text [] ++ 'T' :: (t.clockText [] ++ ['Z'])

end Instant

end Agenda
