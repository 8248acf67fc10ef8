import Collate.Floating.Rounding

/-!
# Shortest decimals

A finite number is written with the fewest digits that read back as it. For each count of
digits the two decimals around the number are tried against the interval of values that
round to it; the first count with a hit wins, and of two hits the nearer.
-/

set_option autoImplicit false

namespace Collate

/-- Digits that stand before a power of ten: the value is `digits * 10 ^ exponent`. -/
structure Digits where
  digits : Nat
  exponent : Int
  deriving DecidableEq, Repr

namespace Floating

/-- The values that round to a number, between two ends that belong to them or do not. All
three are counted in quarters of the format's unit. -/
structure Interval where
  low : Nat
  value : Nat
  high : Nat
  closed : Bool

/-- The values that round to the number with a given ordinal. -/
def interval (f : Format) (ordinal : Nat) : Interval :=
  let step := Nat.pow 2 (f.shift ordinal)
  let value := 4 * f.units ordinal
  let below := if f.significand ordinal = f.binade && 0 < f.shift ordinal then step else 2 * step
  ⟨value - below, value, value + 2 * step, f.significand ordinal % 2 = 0⟩

/-- The interval holds a value. -/
def Interval.holds (i : Interval) (y : Nat) : Bool :=
  if i.closed then i.low ≤ y && y ≤ i.high else i.low < y && y < i.high

/-- The interval with all counts multiplied. -/
def Interval.stretch (i : Interval) (k : Nat) : Interval :=
  ⟨i.low * k, i.value * k, i.high * k, i.closed⟩

/-- The multiple of `grid` next to the interval's value that the interval holds; of two the
nearer, and of two as near the even one. -/
def Interval.nearest? (i : Interval) (grid : Nat) : Option Nat :=
  let c := i.value / grid
  let low := c * grid
  let high := (c + 1) * grid
  match i.holds low, i.holds high with
  | true, true => some (roundQuotient i.value grid)
  | true, false => some c
  | false, true => some (c + 1)
  | false, false => none

/-- Places that keep every decimal met below a natural number. -/
def places : Nat := 400

/-- The first of a growing count of digits for which the interval holds a decimal. -/
def firstHit (f : Format) (i : Interval) (top : Nat) : (tries count : Nat) → Digits
  | 0, _ => ⟨i.value, 0⟩
  | tries + 1, count =>
      match i.nearest? (4 * f.unitsInOne * Nat.pow 10 (top - count)) with
      | some c => ⟨c, (top : Int) - count - places⟩
      | none => firstHit f i top tries (count + 1)

/-- Digits without the zeros at their end. -/
def trimZeros : (room : Nat) → Digits → Digits
  | 0, d => d
  | room + 1, d =>
      if d.digits % 10 = 0 then trimZeros room ⟨d.digits / 10, d.exponent + 1⟩ else d

/-- The fewest digits that read back as the number with a given positive ordinal. -/
def shortest (f : Format) (ordinal : Nat) : Digits :=
  let i := (interval f ordinal).stretch (Nat.pow 10 places)
  let top := Decimal.digitCount (i.value / (4 * f.unitsInOne))
  trimZeros 20 (firstHit f i top 17 1)

end Floating

end Collate
