import Collate.Floating.Text
import Collate.Json.Basic

/-!
# Numbers as written

A `Numeral` is a number in its digits. It stands for an integer if it has no point and no power of
ten and a machine word holds it. Any other number is read with as many digits as a machine word
holds: these make one number of the 64-bit format, which is multiplied or divided by a power of ten.
That rounds twice, so beyond fifteen digits the number that is read need not be the nearest.
-/

set_option autoImplicit false

namespace Collate.Json

/-- The digits of a number. -/
structure Numeral where
  negative : Bool
  whole : List Char
  fraction : Option (List Char)
  exponent : Option (Bool × List Char)
  deriving DecidableEq, Repr

/-- A power of ten in the 64-bit format. -/
def powerOfTen (power : Nat) : Double := .ofInt (Nat.pow 10 power)

/-- The largest power of ten that the 64-bit format has. -/
def topPower : Nat := 308

/-- A number divided by a power of ten, and before it by the largest one so many times. -/
def lowered : (times : Nat) → (power : Nat) → Double → Double
  | 0, power, x => x.div (powerOfTen power)
  | times + 1, power, x =>
      if x.ordinal = 0 then x else lowered times (power - topPower) (x.div (powerOfTen topPower))

/-- A positive number or zero times a power of ten. -/
def timesPower (x : Double) (exponent : Int) : Double :=
  if exponent < 0 then lowered (((-exponent).toNat - 1) / topPower) (-exponent).toNat x
  else if exponent ≤ topPower then x.mul (powerOfTen exponent.toNat)
  else if x.ordinal = 0 then x
  else ⟨false, Format.double.infinite⟩

/-- A natural number times a power of ten; none if that is infinite. -/
def scaled? (significand : Nat) (exponent : Int) : Option Double :=
  let x := timesPower (.ofInt significand) exponent
  if x.isFinite then some x else none

/-- Digits put behind a number as long as a machine word holds it, and those that are left. -/
def takeDigits (n : Nat) : List Char → Nat × List Char
  | [] => (n, [])
  | c :: cs =>
      let next := n * 10 + (c.toNat - 48)
      if next ≤ Text.wordMax then takeDigits next cs else (n, c :: cs)

namespace Numeral

/-- The integer that the digits write, if there are no others and a machine word holds it.
Minus zero is none. -/
def int? (n : Numeral) : Option Int :=
  if n.fraction.isSome || n.exponent.isSome then none
  else
    let value := digitsValue n.whole
    if n.negative then
      if value ≠ 0 && value ≤ 0x8000000000000000 then some (- (value : Int)) else none
    else if value ≤ Text.wordMax then some value
    else none

/-- The power of ten that stands behind the digits. One too large for 32 bits leaves only zero. -/
def magnitude? (significand : Nat) (point : Int) : Option (Bool × List Char) → Option Double
  | none => scaled? significand point
  | some (negative, ds) =>
      let power := digitsValue ds
      if power ≤ 0x7FFFFFFF then scaled? significand (if negative then point - power else point + power)
      else if negative || significand = 0 then some .zero
      else none

/-- The number of the 64-bit format that the digits are read as. A digit that is left over counts as a
place in front of the point and not at all behind it. -/
def float? (n : Numeral) : Option Double :=
  let part := n.fraction.getD []
  let (front, left) := takeDigits 0 n.whole
  let (significand, unread) := takeDigits front part
  let point : Int := left.length - (part.length - unread.length)
  (magnitude? significand point n.exponent).map fun x => ⟨n.negative, x.ordinal⟩

/-- The number that the digits write: an integer where one fits, else a finite one. -/
def number? (n : Numeral) : Option Number :=
  match n.int? with
  | some i => some (.int i)
  | none => n.float?.map .float

end Numeral

end Collate.Json
