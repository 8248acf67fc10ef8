import Collate.Floating.Rounding
import Mathlib.Algebra.GroupWithZero.Nat
import Mathlib.Tactic.SplitIfs

/-!
# Rounding keeps order

An integer is rounded to the place of a number in its format. Places of a larger integer are not
smaller, and they are larger where both integers have no more bits than a significand: up to two
to the number of these bits, each integer has a place of its own.
-/

set_option autoImplicit false

namespace Collate

section Quotient

variable {num num' den : Nat}

theorem le_roundQuotient (num den : Nat) : num / den ≤ roundQuotient num den := by
  unfold roundQuotient
  dsimp only
  split
  · exact Nat.le_refl _
  · split <;> omega

theorem roundQuotient_le (num den : Nat) : roundQuotient num den ≤ num / den + 1 := by
  unfold roundQuotient
  dsimp only
  split
  · omega
  · split <;> omega

theorem roundQuotient_mono (den : Nat) (le : num ≤ num') : roundQuotient num den ≤ roundQuotient num' den := by
  rcases Nat.lt_or_eq_of_le (Nat.div_le_div_right (c := den) le) with less | same
  · have upper := roundQuotient_le num den
    have lower := le_roundQuotient num' den
    omega
  · have rest : num % den ≤ num' % den := by
      have whole := Nat.div_add_mod num den
      have whole' := Nat.div_add_mod num' den
      rw [same] at whole
      omega
    unfold roundQuotient
    dsimp only
    rw [same]
    split_ifs <;> omega

theorem roundQuotient_of_dvd (positive : 0 < den) (exact : den ∣ num) :
    roundQuotient num den = num / den := by
  unfold roundQuotient
  dsimp only
  rw [Nat.mod_eq_zero_of_dvd exact, if_pos (by omega)]

end Quotient

theorem log2_mul_two_pow {n : Nat} (some : n ≠ 0) (k : Nat) : (n * 2 ^ k).log2 = n.log2 + k := by
  have scaled : n * 2 ^ k ≠ 0 := Nat.mul_ne_zero some (Nat.ne_of_gt (Nat.two_pow_pos k))
  rw [Nat.log2_eq_iff scaled, Nat.add_right_comm, Nat.pow_add, Nat.pow_add]
  constructor
  · exact Nat.mul_le_mul_right _ (Nat.log2_self_le some)
  · exact Nat.mul_lt_mul_of_pos_right Nat.lt_log2_self (Nat.two_pow_pos k)

namespace Format

variable (f : Format) {u v : Nat}

/-- How many bits a number of units has beyond those of a fraction. -/
def excess (u : Nat) : Nat := u.log2 - f.fraction

/-- The place nearest to a number of units, in a format whose exponents have no end. -/
def place (u : Nat) : Nat :=
  f.excess u * 2 ^ f.fraction + roundQuotient u (2 ^ f.excess u)

theorem round_one (n : Nat) : f.round n 1 = min (f.place (n * f.unitsInOne)) f.infinite := by
  unfold round place excess binade
  simp only [Nat.div_one, Nat.one_mul, Nat.pow_eq]

theorem excess_mono (le : u ≤ v) : f.excess u ≤ f.excess v := by
  unfold excess
  rcases Nat.eq_zero_or_pos u with rfl | positive
  · simp
  · have bits : u.log2 ≤ v.log2 := by
      rw [Nat.le_log2 (by omega)]
      exact Nat.le_trans (Nat.log2_self_le (by omega)) le
    omega

theorem quotient_lt (u : Nat) : u / 2 ^ f.excess u < 2 ^ (f.fraction + 1) := by
  rw [Nat.div_lt_iff_lt_mul (Nat.two_pow_pos _), ← Nat.pow_add]
  have bits : u < 2 ^ (u.log2 + 1) := Nat.lt_log2_self
  have room : 2 ^ (u.log2 + 1) ≤ 2 ^ (f.fraction + 1 + f.excess u) :=
    Nat.pow_le_pow_right (by decide) (by unfold excess; omega)
  omega

theorem le_quotient (beyond : 0 < f.excess u) : 2 ^ f.fraction ≤ u / 2 ^ f.excess u := by
  have some : u ≠ 0 := by
    rintro rfl
    simp [excess] at beyond
  rw [Nat.le_div_iff_mul_le (Nat.two_pow_pos _), ← Nat.pow_add]
  have bits : 2 ^ u.log2 ≤ u := Nat.log2_self_le some
  have split : f.fraction + f.excess u = u.log2 := by
    unfold excess at beyond ⊢
    omega
  rwa [split]

theorem place_le (u : Nat) : f.place u ≤ (f.excess u + 2) * 2 ^ f.fraction := by
  have quotient := f.quotient_lt u
  have nearest := roundQuotient_le u (2 ^ f.excess u)
  rw [Nat.pow_succ] at quotient
  rw [place, Nat.add_mul]
  omega

theorem le_place (beyond : 0 < f.excess u) : (f.excess u + 1) * 2 ^ f.fraction ≤ f.place u := by
  have quotient := f.le_quotient beyond
  have nearest := le_roundQuotient u (2 ^ f.excess u)
  rw [place, Nat.add_mul]
  omega

/-- One more bit takes the place past those of all numbers with fewer bits. -/
theorem bound_le_place (less : f.excess u < f.excess v) :
    (f.excess u + 2) * 2 ^ f.fraction ≤ f.place v := by
  have lower := f.le_place (u := v) (by omega)
  have step : (f.excess u + 2) * 2 ^ f.fraction ≤ (f.excess v + 1) * 2 ^ f.fraction :=
    Nat.mul_le_mul_right _ (by omega)
  omega

theorem place_mono (le : u ≤ v) : f.place u ≤ f.place v := by
  rcases Nat.lt_or_eq_of_le (f.excess_mono le) with less | same
  · exact Nat.le_trans (f.place_le u) (f.bound_le_place less)
  · rw [place, place, same]
    have nearest := roundQuotient_mono (2 ^ f.excess v) le
    omega

/-- A number of units that the significand holds to its last bit. -/
def Exact (u : Nat) : Prop := 2 ^ f.excess u ∣ u

theorem place_of_exact (exact : f.Exact u) :
    f.place u = f.excess u * 2 ^ f.fraction + u / 2 ^ f.excess u := by
  rw [place, roundQuotient_of_dvd (Nat.two_pow_pos _) exact]

theorem place_strictMono (exactly : f.Exact u) (exactly' : f.Exact v) (less : u < v) :
    f.place u < f.place v := by
  rcases Nat.lt_or_eq_of_le (f.excess_mono (Nat.le_of_lt less)) with fewer | same
  · have bound := f.bound_le_place fewer
    have quotient := f.quotient_lt u
    rw [Nat.pow_succ] at quotient
    rw [f.place_of_exact exactly]
    rw [Nat.add_mul] at bound
    omega
  · have quotients : u / 2 ^ f.excess v < v / 2 ^ f.excess v :=
      Nat.div_lt_div_of_lt_of_dvd exactly' less
    rw [f.place_of_exact exactly, f.place_of_exact exactly', same]
    omega

/-- Integers of no more bits than a significand are exact. -/
theorem exact_of_le {n : Nat} (le : n ≤ 2 ^ (f.fraction + 1)) : f.Exact (n * f.unitsInOne) := by
  unfold Exact unitsInOne
  rw [Nat.pow_eq]
  rcases Nat.eq_zero_or_pos n with rfl | positive
  · simp
  · rcases Nat.lt_or_eq_of_le le with less | rfl
    · have bits : n.log2 ≤ f.fraction := by
        have := (Nat.log2_lt (by omega)).2 less
        omega
      have small : f.excess (n * 2 ^ f.scale) ≤ f.scale := by
        rw [excess, log2_mul_two_pow (by omega)]
        omega
      exact Nat.dvd_trans (Nat.pow_dvd_pow 2 small) (Nat.dvd_mul_left _ _)
    · rw [← Nat.pow_add]
      apply Nat.pow_dvd_pow
      rw [excess, Nat.log2_two_pow]
      omega

theorem round_mono {m n : Nat} (le : m ≤ n) : f.round m 1 ≤ f.round n 1 := by
  rw [round_one, round_one]
  have places := f.place_mono (Nat.mul_le_mul_right f.unitsInOne le)
  omega

/-- Different integers of no more bits than a significand have different places, if the largest
of them has one that is finite. -/
theorem round_strictMono {m n : Nat} (less : m < n) (le : n ≤ 2 ^ (f.fraction + 1))
    (finite : f.round n 1 < f.infinite) : f.round m 1 < f.round n 1 := by
  have units : 0 < f.unitsInOne := Nat.two_pow_pos _
  have places := f.place_strictMono (f.exact_of_le (Nat.le_trans (Nat.le_of_lt less) le))
    (f.exact_of_le le) (Nat.mul_lt_mul_of_pos_right less units)
  rw [round_one] at finite
  rw [round_one, round_one]
  omega

end Format

namespace Floating

variable {f : Format} {m n : Int}

theorem isNaN_ofInt (n : Int) : (ofInt n : Floating f).isNaN = false := by
  have bound : (ofInt n : Floating f).ordinal ≤ f.infinite := by
    change f.round n.natAbs 1 ≤ f.infinite
    rw [Format.round_one]
    exact Nat.min_le_right _ _
  simpa [isNaN] using bound

theorem rank_ofInt_of_nonneg (nonneg : 0 ≤ n) : (ofInt n : Floating f).rank = f.round n.natAbs 1 := by
  have sign : decide (n < 0) = false := by simp [nonneg]
  simp [rank, ofInt, sign]

theorem rank_ofInt_of_nonpos (nonpos : n ≤ 0) : (ofInt n : Floating f).rank = -(f.round n.natAbs 1 : Int) := by
  rcases Int.lt_or_eq_of_le nonpos with negative | rfl
  · have sign : decide (n < 0) = true := by simp [negative]
    simp [rank, ofInt, sign]
  · have none : f.round 0 1 = 0 := by
      simp [Format.round_one, Format.place, Format.excess, roundQuotient]
    simp [rank, ofInt, none]

/-- A larger integer is not rounded to a smaller number. -/
theorem rank_ofInt_mono (le : m ≤ n) : (ofInt m : Floating f).rank ≤ (ofInt n : Floating f).rank := by
  rcases Int.le_total 0 m with above | below
  · rw [rank_ofInt_of_nonneg above, rank_ofInt_of_nonneg (Int.le_trans above le)]
    have places := f.round_mono (m := m.natAbs) (n := n.natAbs) (by omega)
    omega
  · rcases Int.le_total 0 n with above | under
    · rw [rank_ofInt_of_nonpos below, rank_ofInt_of_nonneg above]
      omega
    · rw [rank_ofInt_of_nonpos below, rank_ofInt_of_nonpos under]
      have places := f.round_mono (m := n.natAbs) (n := m.natAbs) (by omega)
      omega

/-- Machine integers are rounded to finite numbers of the 64-bit format. -/
theorem isFinite_ofInt (bound : n.natAbs ≤ 2 ^ 64) : (ofInt n : Double).isFinite = true := by
  have largest : Format.double.round (2 ^ 64) 1 < Format.double.infinite := by decide +kernel
  have places := Format.double.round_mono bound
  have ordinal : (ofInt n : Double).ordinal = Format.double.round n.natAbs 1 := rfl
  rw [isFinite, ordinal, decide_eq_true_eq]
  omega

/-- Up to 2⁵³ in size, a larger integer is rounded to a larger number of the 64-bit format. -/
theorem rank_ofInt_strictMono (mBound : m.natAbs ≤ 2 ^ 53) (nBound : n.natAbs ≤ 2 ^ 53) (less : m < n) :
    (ofInt m : Double).rank < (ofInt n : Double).rank := by
  have strictly {k l : Nat} (less : k < l) (le : l ≤ 2 ^ 53) :
      Format.double.round k 1 < Format.double.round l 1 := by
    apply Format.double.round_strictMono less le
    have largest : Format.double.round (2 ^ 53) 1 < Format.double.infinite := by decide +kernel
    exact Nat.lt_of_le_of_lt (Format.double.round_mono le) largest
  rcases Int.le_total 0 m with above | below
  · rw [rank_ofInt_of_nonneg above, rank_ofInt_of_nonneg (by omega)]
    have places := strictly (k := m.natAbs) (l := n.natAbs) (by omega) nBound
    omega
  · rcases Int.lt_or_le 0 n with above | under
    · rw [rank_ofInt_of_nonpos below, rank_ofInt_of_nonneg (by omega)]
      have places := strictly (k := 0) (l := n.natAbs) (by omega) nBound
      omega
    · rw [rank_ofInt_of_nonpos below, rank_ofInt_of_nonpos under]
      have places := strictly (k := n.natAbs) (l := m.natAbs) (by omega) mBound
      omega

end Floating

end Collate
