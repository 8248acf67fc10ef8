import Collate.Floating.Shortest
import Collate.Text.Numeral

/-!
# Texts of floating-point numbers

`Decimal.ofText?` reads plain and scientific decimals; `Floating.ofText?` reads also the
names of infinity and of what is no number. `Floating.text` writes a finite number
with its shortest digits: positional from 1e-5 up to 1e16, scientific outside of it.
-/

set_option autoImplicit false

namespace Collate

/-- A run of decimal digits in front of a text, and the rest. -/
def spanDigits (cs : List Char) : List Char × List Char :=
  (cs.takeWhile Char.isDigit, cs.dropWhile Char.isDigit)

/-- The value of a run of decimal digits. -/
def digitsValue (cs : List Char) : Nat :=
  cs.foldl (fun n c => n * 10 + (c.toNat - 48)) 0

/-- A sign in front of a text, minus or not, and the rest. -/
def takeSign : List Char → Bool × List Char
  | '-' :: cs => (true, cs)
  | '+' :: cs => (false, cs)
  | cs => (false, cs)

/-- The power of ten written behind the digits of a decimal, if that is all there is. -/
def exponent? : List Char → Option Int
  | [] => some 0
  | c :: cs =>
      if c = 'e' || c = 'E' then
        let (negative, cs) := takeSign cs
        match spanDigits cs with
        | ([], _) => none
        | (ds, []) => some (if negative then - (digitsValue ds : Int) else digitsValue ds)
        | _ => none
      else none

namespace Decimal

/-- A decimal without its sign: digits, a point with more digits, an exponent. -/
def unsigned? (negative : Bool) (cs : List Char) : Option Decimal :=
  let (whole, cs) := spanDigits cs
  let (part, cs) :=
    match cs with
    | '.' :: cs => spanDigits cs
    | cs => ([], cs)
  if whole.isEmpty && part.isEmpty then none
  else
    (exponent? cs).map fun e => ⟨negative, digitsValue (whole ++ part), e - part.length⟩

/-- The decimal that a text writes, with an optional sign; at least one digit stands before
or after the point. -/
def ofText? (cs : List Char) : Option Decimal :=
  let (negative, cs) := takeSign cs
  unsigned? negative cs

end Decimal

namespace Floating

/-- The number that a text writes, nearest to its decimal; names are read in either case. -/
def ofText? (f : Format) (cs : List Char) : Option (Floating f) :=
  let (negative, rest) := takeSign cs
  let name := String.ofList (rest.map Char.toLower)
  if name = "nan" then some ⟨negative, f.infinite + 1⟩
  else if name = "inf" || name = "infinity" then some ⟨negative, f.infinite⟩
  else (Decimal.ofText? cs).map (Decimal.round f)

/-- Digits with a decimal point put `whole` places behind their start. -/
def positional (ds : List Char) (whole : Int) : List Char :=
  if whole ≤ 0 then
    '0' :: '.' :: (List.replicate (-whole).toNat '0' ++ ds)
  else
    let whole := whole.toNat
    if ds.length ≤ whole then
      ds ++ List.replicate (whole - ds.length) '0' ++ ['.', '0']
    else
      ds.take whole ++ '.' :: ds.drop whole

/-- Digits with a point behind the first and a signed power of ten. -/
def scientific (ds : List Char) (exponent : Int) : List Char :=
  let mantissa :=
    match ds with
    | [] => []
    | [d] => [d]
    | d :: rest => d :: '.' :: rest
  let power := 'e' :: (if exponent < 0 then '-' else '+') :: Nat.toDigits 10 exponent.natAbs
  mantissa ++ power

/-- The text of the positive number with a given ordinal. -/
def magnitudeText (f : Format) (ordinal : Nat) : List Char :=
  if ordinal = 0 then ['0', '.', '0']
  else
    let d := shortest f ordinal
    let ds := Nat.toDigits 10 d.digits
    let whole : Int := ds.length + d.exponent
    if -5 < whole && whole ≤ 16 then positional ds whole else scientific ds (whole - 1)

/-- The text of a finite number. -/
def text {f : Format} (x : Floating f) : List Char :=
  if x.negative then '-' :: magnitudeText f x.ordinal else magnitudeText f x.ordinal

end Floating

end Collate
