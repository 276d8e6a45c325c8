/-
Finite binary64 numbers, exactly.

A finite double is a sign and a dyadic number `significand · 2 ^ exponent`; it has one canonical
writing, in which the significand fills 53 bits unless the exponent has reached its floor. Rounding
a quotient of natural numbers therefore needs no machine arithmetic: divide on the grid of the
right binade, look at the remainder, and let a half go to the even neighbour. Products and
quotients of doubles are rounded quotients of their exact values, which is what the standard asks
of them.
-/

set_option autoImplicit false

namespace Agenda

/-- The canonical significand and exponent of a finite double: 53 bits at most, all 53 of them
above the lowest exponent. -/
def Double.Canonical (significand : Nat) (exponent : Int) : Prop :=
  significand < Nat.pow 2 53 ∧ -1074 ≤ exponent ∧ exponent ≤ 971 ∧
    (Nat.pow 2 52 ≤ significand ∨ exponent = -1074)

instance (significand : Nat) (exponent : Int) :
    Decidable (Double.Canonical significand exponent) := by
  unfold Double.Canonical; infer_instance

/-- A finite double. Both zeros are there. -/
structure Double where
  negative : Bool
  significand : Nat
  exponent : Int
  canonical : Double.Canonical significand exponent
deriving DecidableEq

namespace Double

/-- Zero with a sign. -/
def zero (negative : Bool) : Double := ⟨negative, 0, -1074, by decide⟩

/-- Whether this is one of the zeros. -/
def isZero (x : Double) : Bool := x.significand = 0

/-! ## Rounding -/

/-- The integer nearest to `n / d`, the even one of two that are equally near. -/
def roundHalfEven (n d : Nat) : Nat :=
  let q := n / d
  let r := n % d
  if 2 * r < d ∨ (2 * r = d ∧ q % 2 = 0) then q else q + 1

/-- A quotient in units of `2 ^ e`. -/
def inUnitsOf (n d : Nat) : Int → Nat × Nat
  | .ofNat k => (n, d * Nat.pow 2 k)
  | .negSucc k => (n * Nat.pow 2 (k + 1), d)

/-- The exponent of the grid on which a positive quotient rounds: the one that leaves 53 bits
before the point, or the lowest there is. -/
def gridExponent (n d : Nat) : Int :=
  let e : Int := (n.log2 : Int) - d.log2 - 52
  let u := inUnitsOf n d e
  max (if u.1 / u.2 < Nat.pow 2 52 then e - 1 else e) (-1074)

/-- The double nearest to `n / d`, ties to the even significand; none if it would be infinite. -/
def ofRatio (negative : Bool) (n d : Nat) : Option Double :=
  if n = 0 then some (zero negative)
  else
    let e := gridExponent n d
    let u := inUnitsOf n d e
    let m := roundHalfEven u.1 u.2
    let (m, e) := if m = Nat.pow 2 53 then (Nat.pow 2 52, e + 1) else (m, e)
    if h : Canonical m e then some ⟨negative, m, e, h⟩ else none

/-- The magnitude as a quotient of natural numbers. -/
def ratio (x : Double) : Nat × Nat :=
  match x.exponent with
  | .ofNat k => (x.significand * Nat.pow 2 k, 1)
  | .negSucc k => (x.significand, Nat.pow 2 (k + 1))

/-- The rounded product; none if it would be infinite. -/
def mul (x y : Double) : Option Double :=
  ofRatio (x.negative != y.negative) (x.ratio.1 * y.ratio.1) (x.ratio.2 * y.ratio.2)

/-- The rounded quotient by a number other than zero; none if it would be infinite. -/
def div (x y : Double) : Option Double :=
  ofRatio (x.negative != y.negative) (x.ratio.1 * y.ratio.2) (x.ratio.2 * y.ratio.1)

/-! ## Scaling by powers of ten

A decimal numeral is read in steps, each of which rounds: the digits become a double, and the
double is divided by `10 ^ 308` for as long as the exponent lies below `-308`; one more division or
multiplication by a power of ten ends it. -/

/-- The double nearest to a power of ten; none from `10 ^ 309` on. -/
def powerOfTen (k : Nat) : Option Double := ofRatio false (Nat.pow 10 k) 1

/-- Divides by `10 ^ exponent`, in steps of `10 ^ 308`; zero stays as it is. The first argument
bounds the number of steps. -/
def shrinkWithin : Nat → Double → Nat → Option Double
  | steps + 1, x, exponent =>
    if 308 < exponent then
      if x.isZero then some x
      else do
        let y ← x.div (← powerOfTen 308)
        shrinkWithin steps y (exponent - 308)
    else do x.div (← powerOfTen exponent)
  | 0, x, _ => some x

/-- Divides by a power of ten. -/
def shrink (x : Double) (exponent : Nat) : Option Double :=
  shrinkWithin (exponent / 308 + 1) x exponent

/-- Multiplies by a power of ten; none if the product would be infinite. -/
def grow (x : Double) (exponent : Nat) : Option Double :=
  if 308 < exponent then if x.isZero then some x else none
  else do x.mul (← powerOfTen exponent)

/-- The number that digits with a decimal exponent are read as; none if it is out of range. -/
def scale (negative : Bool) (digits : Nat) (exponent : Int) : Option Double := do
  let x ← ofRatio negative digits 1
  match exponent with
  | .ofNat k => x.grow k
  | .negSucc k => x.shrink (k + 1)

end Double

end Agenda
