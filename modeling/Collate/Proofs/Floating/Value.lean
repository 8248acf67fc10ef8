import Collate.Proofs.Comparer.Preorder
import Collate.Proofs.Floating.Shortest
import Mathlib.Data.EReal.Operations

/-!
# What floating-point numbers stand for

The ordinal of a number says how many units of the format it is large, or that it is infinite, and
a larger ordinal stands for more. So comparing two numbers by their places among the numbers of the
format is comparing what they stand for, the two zeros being one. Together with what is no number,
which comes last, the values of a format are totally preordered.
-/

set_option autoImplicit false

namespace Collate

namespace Format

variable (f : Format) {o o' : Nat}

/-- How large the number with an ordinal is, without its sign. -/
noncomputable def size (o : Nat) : EReal :=
  if o < f.infinite then ((f.units o / f.unitsInOne : ℝ) : EReal) else ⊤

theorem units_strictMono : StrictMono f.units := by
  apply strictMono_nat_of_lt_succ
  intro o
  rw [f.units_succ]
  exact Nat.lt_add_of_pos_right (Nat.two_pow_pos _)

theorem size_strictMono (less : o < o') (number : o' ≤ f.infinite) : f.size o < f.size o' := by
  have finite : o < f.infinite := Nat.lt_of_lt_of_le less number
  rw [size, size, if_pos finite]
  split
  · have one : (0 : ℝ) < f.unitsInOne := Nat.cast_pos.2 (Nat.two_pow_pos _)
    have units : (f.units o : ℝ) < f.units o' := Nat.cast_lt.2 (f.units_strictMono less)
    exact EReal.coe_lt_coe_iff.2 (div_lt_div_of_pos_right units one)
  · exact EReal.coe_lt_top _

theorem size_zero (some : 0 < f.infinite) : f.size 0 = 0 := by
  simp [size, some, f.units_zero]

theorem size_nonneg (some : 0 < f.infinite) (number : o ≤ f.infinite) : 0 ≤ f.size o := by
  rcases Nat.eq_zero_or_pos o with rfl | positive
  · rw [f.size_zero some]
  · rw [← f.size_zero some]
    exact le_of_lt (f.size_strictMono positive number)

/-- A format with exponents has numbers below infinity. -/
theorem infinite_pos (exponents : 0 < f.exponent) : 0 < f.infinite := by
  have two : 2 ≤ 2 ^ f.exponent := Nat.le_self_pow (by omega) 2
  rw [infinite, Nat.pow_eq]
  exact Nat.mul_pos (by omega) f.binade_pos

end Format

namespace Floating

variable {f : Format} {a b : Floating f}

/-- What a number stands for. -/
noncomputable def value (x : Floating f) : EReal :=
  if x.negative then -f.size x.ordinal else f.size x.ordinal

theorem ordinal_le_of_isNaN (number : a.isNaN = false) : a.ordinal ≤ f.infinite := by
  simpa [isNaN] using number

theorem compare_of_isNaN (aNumber : a.isNaN = false) (bNumber : b.isNaN = false) :
    a.compare b = Ord.compare a.rank b.rank := by
  rw [compare, aNumber, bNumber]

theorem value_lt_of_rank_lt (exponents : 0 < f.exponent) (aNumber : a.isNaN = false)
    (bNumber : b.isNaN = false) (less : a.rank < b.rank) : a.value < b.value := by
  have some := f.infinite_pos exponents
  have aSize := ordinal_le_of_isNaN aNumber
  have bSize := ordinal_le_of_isNaN bNumber
  obtain ⟨negative, o⟩ := a
  obtain ⟨negative', o'⟩ := b
  cases negative <;> cases negative' <;> simp only [rank, value, if_true, if_false, Bool.false_eq_true] at less ⊢
  · exact f.size_strictMono (by omega) bSize
  · omega
  · -- one of the two is not zero
    rcases Nat.eq_zero_or_pos o with rfl | positive
    · rw [f.size_zero some, neg_zero, ← f.size_zero some]
      exact f.size_strictMono (by omega) bSize
    · have below : -f.size o < 0 := by
        rw [← neg_zero, EReal.neg_lt_neg_iff, ← f.size_zero some]
        exact f.size_strictMono positive aSize
      exact below.trans_le (f.size_nonneg some bSize)
  · exact EReal.neg_lt_neg_iff.2 (f.size_strictMono (by omega) aSize)

theorem value_eq_of_rank_eq (exponents : 0 < f.exponent) (same : a.rank = b.rank) : a.value = b.value := by
  have zero := f.size_zero (f.infinite_pos exponents)
  obtain ⟨negative, o⟩ := a
  obtain ⟨negative', o'⟩ := b
  cases negative <;> cases negative' <;> simp only [rank, value, if_true, if_false, Bool.false_eq_true] at same ⊢
  · rw [show o = o' by omega]
  · rw [show o = 0 by omega, show o' = 0 by omega, zero, neg_zero]
  · rw [show o = 0 by omega, show o' = 0 by omega, zero, neg_zero]
  · rw [show o = o' by omega]

/-- Numbers are compared by what they stand for. -/
theorem compare_eq_compare_value (exponents : 0 < f.exponent) (aNumber : a.isNaN = false)
    (bNumber : b.isNaN = false) : a.compare b = Ord.compare a.value b.value := by
  rw [compare_of_isNaN aNumber bNumber]
  rcases Int.lt_trichotomy a.rank b.rank with less | same | greater
  · rw [Int.compare_eq_lt.2 less, compare_lt_iff_lt.2 (value_lt_of_rank_lt exponents aNumber bNumber less)]
  · rw [Int.compare_eq_eq.2 same, compare_eq_iff_eq.2 (value_eq_of_rank_eq exponents same)]
  · rw [Int.compare_eq_gt.2 greater, compare_gt_iff_gt.2 (value_lt_of_rank_lt exponents bNumber aNumber greater)]

/-- The values of a format are compared first by whether they are numbers and then by place, as if
all that is no number had one. -/
theorem compare_eq_then (a b : Floating f) :
    a.compare b = (Ord.compare a.isNaN b.isNaN).then
      (Ord.compare (if a.isNaN then 0 else a.rank) (if b.isNaN then 0 else b.rank)) := by
  unfold compare
  cases a.isNaN <;> cases b.isNaN <;> rfl

/-- The values of a format are totally preordered. -/
theorem totalPreorderOn_compare (f : Format) :
    Comparison.TotalPreorderOn (compare : Comparison (Floating f)) fun _ => True := by
  have flags : Comparison.TotalPreorderOn (Ord.compare : Comparison Bool) fun _ => True :=
    Comparison.totalPreorderOn_of_transCmp fun _ => True
  have places : Comparison.TotalPreorderOn (Ord.compare : Comparison Int) fun _ => True :=
    Comparison.totalPreorderOn_of_transCmp fun _ => True
  have laws := (flags.comap (isNaN (f := f))).lexicographic
    (places.comap fun x : Floating f => if x.isNaN then 0 else x.rank)
  simpa only [← compare_eq_then] using laws

end Floating

end Collate
