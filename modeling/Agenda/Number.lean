/-
Numbers of the data format: integers that fit 64 bits, with or without a sign, and finite doubles.
The two kinds stay apart, since `1` and `1.0` are different texts.
-/
import Agenda.Number.Shortest

set_option autoImplicit false

namespace Agenda

/-- The least signed integer of 64 bits. -/
def Number.least : Int := -9223372036854775808

/-- The greatest unsigned integer of 64 bits. -/
def Number.greatest : Int := 18446744073709551615

/-- A number as the data format knows it. -/
inductive Number where
  /-- An integer of at most 64 bits, signed or unsigned. -/
  | integer (value : Int) (fits : Number.least ≤ value ∧ value ≤ Number.greatest)
  /-- A finite double. -/
  | float (value : Double)
deriving DecidableEq

namespace Number

theorem zero_fits : least ≤ 0 ∧ 0 ≤ greatest := by decide

theorem one_fits : least ≤ 1 ∧ 1 ≤ greatest := by decide

/-- The text of a number. -/
def text : Number → List Char
  | integer n _ => Numeral.ofInt n
  | float x => x.text

/-- A whole number read from digits. A negative one that is zero or too large becomes a double. -/
def ofDigits? (negative : Bool) (n : Nat) : Option Number :=
  let value : Int := if negative then -n else n
  if h : (least ≤ value ∧ value ≤ greatest) ∧ ¬ (negative ∧ n = 0) then some (integer value h.1)
  else (Double.ofRatio negative n 1).map float

end Number

end Agenda
