/-
The shortest decimal text of a double.

The reals that round to a double fill an interval around it: half a gap up, half a gap down, and
only a quarter of the upper gap down below a power of two. Its ends belong to it iff the
significand is even, since a tie rounds there. Among the decimals with 1, 2, … 17 digits the first
grid that has a point in the interval fixes the number of digits; every such grid has one of its two
points next to the double in the interval, so only those two are tried, and the nearer one wins.
All comparisons are between natural numbers, after both sides are brought to a common denominator.
-/
import Agenda.Number.Double
import Agenda.Text.Numeral

set_option autoImplicit false

namespace Agenda

/-- A positive decimal `coefficient · 10 ^ exponent`. -/
structure Decimal where
  coefficient : Nat
  exponent : Int
deriving DecidableEq

namespace Double

/-! ## The interval that rounds to a double

Positions are counted in quarters of the gap above the double. -/

/-- The double's own position. -/
def centre (x : Double) : Nat := 4 * x.significand

/-- The upper end of the interval. -/
def upperEnd (x : Double) : Nat := 4 * x.significand + 2

/-- The lower end. The gap below a power of two is half as wide as the gap above it. -/
def lowerEnd (x : Double) : Nat :=
  if x.significand = Nat.pow 2 52 ∧ -1074 < x.exponent then 4 * x.significand - 1
  else 4 * x.significand - 2

/-- Numerator factors that bring a position and a multiple of `10 ^ k` to a common denominator:
position `p` and decimal `c · 10 ^ k` compare as `p * fst` and `c * snd`. -/
def commonFactors (x : Double) (k : Int) : Nat × Nat :=
  let e := x.exponent - 2
  (Nat.pow 2 e.toNat * Nat.pow 10 (-k).toNat, Nat.pow 2 (-e).toNat * Nat.pow 10 k.toNat)

/-- Whether `c · 10 ^ k` rounds to the double. -/
def roundsBack (x : Double) (c : Nat) (k : Int) : Bool :=
  let (a, b) := x.commonFactors k
  if x.significand % 2 = 0 then x.lowerEnd * a ≤ c * b && c * b ≤ x.upperEnd * a
  else x.lowerEnd * a < c * b && c * b < x.upperEnd * a

/-! ## The grids -/

/-- The point next to the double on the grid of multiples of `10 ^ k` that rounds back: the nearer
one if both do, the even one if they are equally near. -/
def gridPoint? (x : Double) (k : Int) : Option Nat :=
  let (a, b) := x.commonFactors k
  let low := x.centre * a / b
  let below := x.centre * a - low * b
  let above := (low + 1) * b - x.centre * a
  match x.roundsBack low k, x.roundsBack (low + 1) k with
  | true, true => some (if below < above ∨ (below = above ∧ low % 2 = 0) then low else low + 1)
  | true, false => some low
  | false, true => some (low + 1)
  | false, false => none

/-- The power of ten of the leading digit of a double other than zero. Four hundred places bring
every double above one, and cutting off the rest leaves the number of digits as it is. -/
def leadingExponent (x : Double) : Int :=
  let (a, b) := x.commonFactors (-400)
  (Numeral.ofNat (x.centre * a / b)).length - 1 - 400

/-- Tries the grids with `digits`, `digits + 1`, … significant digits. The first argument bounds the
number of grids. -/
def shortestFrom : Nat → Nat → Double → Decimal
  | grids + 1, digits, x =>
    let k := x.leadingExponent - digits + 1
    match x.gridPoint? k with
    | some c => ⟨c, k⟩
    | none => shortestFrom grids (digits + 1) x
  | 0, _, x => ⟨x.significand, 0⟩

/-- The decimal with the fewest digits that rounds to the double, the nearest of those. Seventeen
digits always suffice. -/
def shortest (x : Double) : Decimal := shortestFrom 17 1 x

/-! ## The text -/

/-- Decimal exponents that are written out with zeros instead of an exponent. -/
def positionalExponents : Int × Int := (-5, 15)

/-- Digits, the first of which counts `10 ^ leading`, written with a point and at least one digit
on each side of it. -/
def positional (digits : List Char) (leading : Int) : List Char :=
  if leading < 0 then '0' :: '.' :: (List.replicate ((-leading).toNat - 1) '0' ++ digits)
  else
    let whole := leading.toNat + 1
    if digits.length ≤ whole then
      digits ++ List.replicate (whole - digits.length) '0' ++ ['.', '0']
    else digits.take whole ++ '.' :: digits.drop whole

/-- Digits with a point after the first one, if more follow, and a signed exponent. -/
def scientific (digits : List Char) (leading : Int) : List Char :=
  let mantissa := match digits with
    | d :: e :: rest => d :: '.' :: e :: rest
    | short => short
  mantissa ++ 'e' :: (if leading < 0 then Numeral.ofInt leading else '+' :: Numeral.ofInt leading)

/-- The text of a double: its shortest digits, positional for exponents between -5 and 15. -/
def text (x : Double) : List Char :=
  let magnitude :=
    if x.isZero then ['0', '.', '0']
    else
      let d := x.shortest
      let all := Numeral.ofNat d.coefficient
      let digits := Numeral.dropTrailingZeros all
      let leading := d.exponent + all.length - 1
      if positionalExponents.1 ≤ leading ∧ leading ≤ positionalExponents.2 then
        positional digits leading
      else scientific digits leading
  if x.negative then '-' :: magnitude else magnitude

end Double

end Agenda
