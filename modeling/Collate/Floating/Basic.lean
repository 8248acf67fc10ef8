import Collate.Comparer.Order

/-!
# Binary floating-point numbers

The numbers of one sign in a binary format are numbered by size: zero is number 0, the
least positive number is number 1, and so on through infinity to the values that are no
number. A `Floating` is a sign and such an ordinal, which is also how the format lays out
its bits, so every pair stands for one bit pattern and comparison needs no decoding.
-/

set_option autoImplicit false

namespace Collate

/-- A binary interchange format: how many bits hold the fraction and the exponent. -/
structure Format where
  fraction : Nat
  exponent : Nat
  deriving DecidableEq, Repr

namespace Format

/-- The format of 64 bits. -/
def double : Format := ⟨52, 11⟩

/-- The format of 32 bits. -/
def single : Format := ⟨23, 8⟩

/-- How many ordinals share an exponent. -/
def binade (f : Format) : Nat := Nat.pow 2 f.fraction

/-- The ordinal of infinity; larger ordinals are no numbers. -/
def infinite (f : Format) : Nat := (Nat.pow 2 f.exponent - 1) * f.binade

/-- The format's least positive number is 2 to the minus this. -/
def scale (f : Format) : Nat := Nat.pow 2 (f.exponent - 1) + f.fraction - 2

/-- How many of the format's least positive number make one. -/
def unitsInOne (f : Format) : Nat := Nat.pow 2 f.scale

/-- The weight that the last bit of an ordinal's number has, as a power of two of units. -/
def shift (f : Format) (ordinal : Nat) : Nat := ordinal / f.binade - 1

/-- The significand of an ordinal's number. -/
def significand (f : Format) (ordinal : Nat) : Nat :=
  if ordinal < f.binade then ordinal else f.binade + ordinal % f.binade

/-- An ordinal's number, in units of the least positive one. -/
def units (f : Format) (ordinal : Nat) : Nat := f.significand ordinal * Nat.pow 2 (f.shift ordinal)

end Format

/-- A number of a binary format: its sign and its place among the numbers of that sign. -/
structure Floating (f : Format) where
  negative : Bool
  ordinal : Nat
  deriving DecidableEq, Repr

/-- Numbers of the 64-bit format. -/
abbrev Double := Floating .double

/-- Numbers of the 32-bit format. -/
abbrev Single := Floating .single

namespace Floating

variable {f : Format}

def zero : Floating f := ⟨false, 0⟩

def isNaN (x : Floating f) : Bool := f.infinite < x.ordinal

def isFinite (x : Floating f) : Bool := x.ordinal < f.infinite

/-- A number's place among all of them; the two zeros share place 0. -/
def rank (x : Floating f) : Int :=
  if x.negative then - (x.ordinal : Int) else x.ordinal

/-- Numbers by size; what is no number comes last and is equal to its like. -/
def compare (a b : Floating f) : Ordering :=
  match a.isNaN, b.isNaN with
  | true, true => .eq
  | true, false => .gt
  | false, true => .lt
  | false, false => Ord.compare a.rank b.rank

/-- The number with a zero of either sign made the positive one. -/
def normalizeZero (x : Floating f) : Floating f :=
  if x.ordinal = 0 then zero else x

/-- The bit pattern: the sign in front of the ordinal. -/
def bits (x : Floating f) : Nat :=
  (if x.negative then Nat.pow 2 (f.fraction + f.exponent) else 0) + x.ordinal

theorem rank_normalizeZero (x : Floating f) : x.normalizeZero.rank = x.rank := by
  unfold normalizeZero
  split
  · rename_i h
    simp [rank, zero, h]
  · rfl

/-- Numbers with zero made positive are determined by their place. -/
theorem normalizeZero_eq_of_rank_eq {x y : Floating f} (h : x.rank = y.rank) :
    x.normalizeZero = y.normalizeZero := by
  obtain ⟨sx, ox⟩ := x
  obtain ⟨sy, oy⟩ := y
  have ho : ox = oy := by
    cases sx <;> cases sy <;> simp [rank] at h <;> omega
  subst ho
  unfold normalizeZero
  by_cases h0 : ox = 0
  · simp [h0]
  · have hs : sx = sy := by
      cases sx <;> cases sy <;> simp [rank] at h <;> first | rfl | omega
    simp [h0, hs]

end Floating

end Collate
