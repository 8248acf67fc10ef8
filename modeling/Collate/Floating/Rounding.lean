import Collate.Floating.Basic

/-!
# Rounding to a binary format

A quotient of natural numbers is rounded to the nearest number of a format, a tie to the
even significand, and what lies beyond the largest number to infinity. Integers and
decimals are read through it, and products and quotients are made by it.
-/

set_option autoImplicit false

namespace Collate

/-- The natural number nearest to a quotient; a half goes to the even neighbour. -/
def roundQuotient (num den : Nat) : Nat :=
  let q := num / den
  let r := num % den
  if 2 * r < den then q
  else if 2 * r = den then q + q % 2
  else q + 1

/-- The ordinal of the number nearest to `num / den`. -/
def Format.round (f : Format) (num den : Nat) : Nat :=
  let scaled := num * f.unitsInOne
  let shift := (scaled / den).log2 - f.fraction
  min (shift * f.binade + roundQuotient scaled (den * Nat.pow 2 shift)) f.infinite

/-- The number nearest to an integer. -/
def Floating.ofInt {f : Format} (n : Int) : Floating f :=
  ⟨decide (n < 0), f.round n.natAbs 1⟩

/-- The product of two finite numbers, rounded. -/
def Floating.mul {f : Format} (x y : Floating f) : Floating f :=
  ⟨x.negative != y.negative,
    f.round (f.units x.ordinal * f.units y.ordinal) (f.unitsInOne * f.unitsInOne)⟩

/-- The quotient of two finite numbers, rounded; the second is not zero. -/
def Floating.div {f : Format} (x y : Floating f) : Floating f :=
  ⟨x.negative != y.negative, f.round (f.units x.ordinal) (f.units y.ordinal)⟩

/-- A decimal: a sign, digits and a power of ten. -/
structure Decimal where
  negative : Bool
  digits : Nat
  exponent : Int
  deriving DecidableEq, Repr

namespace Decimal

/-- How many decimal digits a natural number has. -/
def digitCount (n : Nat) : Nat := (Nat.toDigits 10 n).length

/-- The number nearest to a decimal. Decimals of more than 400 places on either side of the
point are infinite or zero in every format here. -/
def round (f : Format) (d : Decimal) : Floating f :=
  let top := d.exponent + digitCount d.digits
  let ordinal :=
    if d.digits = 0 || top < -400 then 0
    else if 400 < top then f.infinite
    else if 0 ≤ d.exponent then f.round (d.digits * Nat.pow 10 d.exponent.toNat) 1
    else f.round d.digits (Nat.pow 10 (-d.exponent).toNat)
  ⟨d.negative, ordinal⟩

end Decimal

end Collate
