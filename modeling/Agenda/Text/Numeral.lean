/-
Decimal numerals: the digits of a number, with leading zeros up to a width where a form asks for
them, and the value of digits that were read.
-/

set_option autoImplicit false

namespace Agenda.Numeral

/-- The decimal digits of a natural number, most significant first. -/
def ofNat (n : Nat) : List Char := Nat.toDigits 10 n

/-- The digits of a number, filled up with leading zeros to at least `width` places. -/
def padded (width n : Nat) : List Char :=
  List.replicate (width - (ofNat n).length) '0' ++ ofNat n

/-- An integer: a minus sign if it is negative, then its digits. -/
def ofInt (n : Int) : List Char :=
  if n < 0 then '-' :: ofNat n.natAbs else ofNat n.natAbs

/-- The value of a character among the ten digits. -/
def digit? (c : Char) : Option Nat :=
  if '0' ≤ c ∧ c ≤ '9' then some (c.toNat - '0'.toNat) else none

/-- Whether a character is one of the ten digits. -/
def isDigit (c : Char) : Bool := (digit? c).isSome

/-- The value that a run of digits spells. A character that is no digit adds nothing. -/
def value (digits : List Char) : Nat :=
  digits.foldl (fun n c => n * 10 + (digit? c).getD 0) 0

/-- Drops the zeros at the end. -/
def dropTrailingZeros (digits : List Char) : List Char :=
  (digits.reverse.dropWhile (· = '0')).reverse

end Agenda.Numeral
