/-!
# Numerals of machine words

An unsigned word is written as decimal digits with at most one plus sign in front. Leading
zeros count; anything else, and a value beyond 64 bits, is no numeral.
-/

set_option autoImplicit false

namespace Collate.Text

/-- The largest value of an unsigned machine word. -/
def wordMax : Nat := 0xFFFFFFFFFFFFFFFF

/-- The value of a digit in a base up to sixteen, either case of letter. -/
def digitValue? (base : Nat) (c : Char) : Option Nat :=
  let n := c.toNat
  let value :=
    if 48 ≤ n && n ≤ 57 then n - 48
    else if 65 ≤ n && n ≤ 70 then n - 55
    else if 97 ≤ n && n ≤ 102 then n - 87
    else base
  if value < base then some value else none

/-- One more digit behind the value read so far. -/
def pushDigit (base : Nat) (acc : Option Nat) (c : Char) : Option Nat :=
  match acc, digitValue? base c with
  | some value, some digit => some (value * base + digit)
  | _, _ => none

/-- The value of a run of one or more digits. -/
def digits? (base : Nat) : List Char → Option Nat
  | [] => none
  | cs => cs.foldl (pushDigit base) (some 0)

/-- A text without one leading plus sign. -/
def dropPlus : List Char → List Char
  | '+' :: cs => cs
  | cs => cs

/-- The machine word that a text writes. -/
def word? (cs : List Char) : Option Nat :=
  match digits? 10 (dropPlus cs) with
  | some n => if n ≤ wordMax then some n else none
  | none => none

end Collate.Text
