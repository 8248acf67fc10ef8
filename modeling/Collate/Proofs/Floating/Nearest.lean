import Collate.Proofs.Floating.Text

/-!
# Rounding finds the number whose interval holds a value

A quotient is rounded to the place whose interval holds it, wherever it lies between the two ends.
Intervals do not overlap, so a quotient in the interval of a finite number is rounded to this number.
The digits that a number is written with lie in its interval, and reading them gives the number back.
Integers that a significand holds are numbers themselves, so a product or a quotient of two of them
is rounded once.
-/

set_option autoImplicit false

namespace Collate

/-- A quotient is rounded by a half at most, and by a half only to an even number. -/
theorem roundQuotient_near {num den q : Nat} (positive : 0 < den) (nearest : q = roundQuotient num den) :
    2 * (q * den) ≤ 2 * num + den ∧ 2 * num ≤ 2 * (q * den) + den ∧
      (q % 2 = 1 → 2 * (q * den) < 2 * num + den ∧ 2 * num < 2 * (q * den) + den) := by
  have whole := Nat.div_add_mod num den
  have rest := Nat.mod_lt num positive
  rw [Nat.mul_comm] at whole
  subst nearest
  unfold roundQuotient
  dsimp only
  split_ifs with below tie
  · omega
  · rcases Nat.mod_two_eq_zero_or_one (num / den) with even | odd
    · rw [even, Nat.add_zero]
      omega
    · rw [odd, Nat.add_mul]
      omega
  · rw [Nat.add_mul]
    omega

namespace Format

variable (f : Format) {s q u den : Nat}

/-- The place nearest to a quotient of units, in a format whose exponents have no end. -/
def nearest (u den : Nat) : Nat :=
  f.excess (u / den) * f.binade + roundQuotient u (den * 2 ^ f.excess (u / den))

theorem round_eq (num den : Nat) : f.round num den = min (f.nearest (num * f.unitsInOne) den) f.infinite := rfl

/-- A place given by an exponent and a significand has these, unless the significand is one too large. -/
theorem place_cases (le : q ≤ 2 * f.binade) (normal : 0 < s → f.binade ≤ q) :
    (f.shift (s * f.binade + q) = s ∧ f.significand (s * f.binade + q) = q) ∨
      (q = 2 * f.binade ∧ f.shift (s * f.binade + q) = s + 1 ∧ f.significand (s * f.binade + q) = f.binade) := by
  have positive := f.binade_pos
  have exponent : (s * f.binade + q) / f.binade = s + q / f.binade := by
    rw [Nat.add_comm, Nat.add_mul_div_right _ _ positive, Nat.add_comm]
  have rest : (s * f.binade + q) % f.binade = q % f.binade := by
    rw [Nat.add_comm, Nat.add_mul_mod_self_right]
  unfold shift significand
  rw [exponent, rest]
  rcases Nat.lt_or_ge q f.binade with small | large
  · left
    obtain rfl : s = 0 := by omega
    rw [Nat.zero_mul, Nat.div_eq_of_lt small, Nat.zero_add, Nat.zero_add, if_pos small]
    exact ⟨rfl, rfl⟩
  · rw [if_neg (by omega)]
    rcases Nat.lt_or_eq_of_le le with less | last
    · left
      have one : q / f.binade = 1 := Nat.div_eq_of_lt_le (by omega) (by omega)
      have mod : q % f.binade = q - f.binade := by
        rw [Nat.mod_eq_sub_mod large, Nat.mod_eq_of_lt (by omega)]
      omega
    · right
      have two : q / f.binade = 2 := by rw [last, Nat.mul_div_cancel _ positive]
      have none : q % f.binade = 0 := by rw [last, Nat.mul_mod_left]
      omega

/-- A number of units that the significand holds is that of its place. -/
theorem units_place (exact : f.Exact u) : f.units (f.place u) = u := by
  have fits := f.quotient_lt u
  have fills := f.le_quotient (u := u)
  have binade : f.binade = 2 ^ f.fraction := rfl
  rw [Nat.pow_succ] at fits
  have held : u / 2 ^ f.excess u * 2 ^ f.excess u = u := Nat.div_mul_cancel exact
  rw [f.place_of_exact exact, ← binade, units, Nat.pow_eq]
  rcases f.place_cases (q := u / 2 ^ f.excess u) (by omega) (by rwa [binade]) with ⟨shift, significand⟩ | ⟨last, -⟩
  · rw [shift, significand, held]
  · omega

theorem units_round {n : Nat} (exact : f.Exact (n * f.unitsInOne)) (finite : f.round n 1 < f.infinite) :
    f.units (f.round n 1) = n * f.unitsInOne := by
  rw [round_one] at finite ⊢
  rw [Nat.min_eq_left (by omega), f.units_place exact]

end Format

/-- Rounding depends on the quotient alone. -/
theorem roundQuotient_mul_right {c : Nat} (positive : 0 < c) (num den : Nat) :
    roundQuotient (num * c) (den * c) = roundQuotient num den := by
  have half (r : Nat) : 2 * (r * c) = 2 * r * c := (Nat.mul_assoc 2 r c).symm
  simp only [roundQuotient, Nat.mul_div_mul_right _ _ positive, Nat.mul_mod_mul_right, half,
    Nat.mul_lt_mul_right positive, Nat.mul_left_inj (Nat.ne_of_gt positive)]

theorem Format.round_mul_right (f : Format) {c : Nat} (positive : 0 < c) (num den : Nat) :
    f.round (num * c) (den * c) = f.round num den := by
  have scaled : num * c * f.unitsInOne = num * f.unitsInOne * c := Nat.mul_right_comm ..
  have wide (s : Nat) : den * c * 2 ^ s = den * 2 ^ s * c := Nat.mul_right_comm ..
  simp only [round_eq, nearest, scaled, Nat.mul_div_mul_right _ _ positive, wide, roundQuotient_mul_right positive]

theorem Format.round_zero (f : Format) {den : Nat} (positive : 0 < den) : f.round 0 den = 0 := by
  have none : roundQuotient 0 den = 0 := by
    rw [roundQuotient_of_dvd positive (Nat.dvd_zero den), Nat.zero_div]
  simp [round_eq, nearest, excess, none]

/-- A decimal that starts within 400 places of the point is rounded as the quotient it stands for. -/
theorem Decimal.round_of_places {f : Format} (negative : Bool) {n : Nat} {e : Int}
    (top : (e + digitCount n).natAbs ≤ 400) :
    Decimal.round f ⟨negative, n, e⟩ =
      ⟨negative, if 0 ≤ e then f.round (n * 10 ^ e.toNat) 1 else f.round n (10 ^ (-e).toNat)⟩ := by
  have low : ¬ e + digitCount n < -400 := by omega
  have high : ¬ 400 < e + digitCount n := by omega
  simp only [Decimal.round, low, high, decide_false, Bool.or_false, decide_eq_true_eq, if_false, Nat.pow_eq]
  congr 1
  split
  · next zero =>
    rw [zero, Nat.zero_mul, f.round_zero Nat.one_pos, f.round_zero (Nat.pow_pos (by decide)), ite_self]
  · rfl

namespace Floating

open Format

variable {f : Format} {s q u o num den k y : Nat}

section Arithmetic

variable {x y : Floating f} {m n : Nat} (left : f.units x.ordinal = m * f.unitsInOne)
  (right : f.units y.ordinal = n * f.unitsInOne)
include left right

/-- The product of two integers is rounded once. -/
theorem ordinal_mul : (x.mul y).ordinal = f.round (m * n) 1 := by
  have unit : 0 < f.unitsInOne * f.unitsInOne := Nat.mul_pos (Nat.two_pow_pos _) (Nat.two_pow_pos _)
  rw [← f.round_mul_right unit, Nat.one_mul, ← Nat.mul_mul_mul_comm, ← left, ← right]
  rfl

/-- So is their quotient. -/
theorem ordinal_div : (x.div y).ordinal = f.round m n := by
  rw [← f.round_mul_right (Nat.two_pow_pos f.scale)]
  change f.round (f.units x.ordinal) (f.units y.ordinal) = _
  rw [left, right]
  rfl

end Arithmetic

/-- The interval of a place reaches half a step to either side of it, and to the lower side it
is half as wide where an exponent begins. -/
theorem interval_place (some : 0 < f.fraction) (le : q ≤ 2 * f.binade) (normal : 0 < s → f.binade ≤ q) :
    ((interval f (s * f.binade + q)).low ≤ 4 * (q * 2 ^ s) - 2 * 2 ^ s ∨
      q = f.binade ∧ 0 < s ∧ (interval f (s * f.binade + q)).low ≤ 4 * (q * 2 ^ s)) ∧
    4 * (q * 2 ^ s) + 2 * 2 ^ s ≤ (interval f (s * f.binade + q)).high ∧
    ((interval f (s * f.binade + q)).closed = false → q % 2 = 1) := by
  have even := f.binade_even some
  simp only [interval, units, Nat.pow_eq, Bool.and_eq_true, decide_eq_true_eq, decide_eq_false_iff_not]
  rcases f.place_cases le normal with ⟨shift, significand⟩ | ⟨last, shift, significand⟩
  · rw [shift, significand]
    split_ifs with first <;> omega
  · have same : f.binade * 2 ^ (s + 1) = q * 2 ^ s := by
      rw [last, Nat.pow_succ, Nat.mul_comm 2 f.binade, Nat.mul_assoc, Nat.mul_comm 2]
    rw [shift, significand, same, if_pos ⟨rfl, Nat.succ_pos s⟩, Nat.pow_succ]
    omega

/-- **A quotient lies in the interval of the place it is rounded to.** -/
theorem holds_nearest (some : 0 < f.fraction) (positive : 0 < den) (u : Nat) :
    ((interval f (f.nearest u den)).stretch den).holds (4 * u) = true := by
  have quotient : u / den / 2 ^ f.excess (u / den) = u / (den * 2 ^ f.excess (u / den)) := Nat.div_div_eq_div_mul ..
  have fits := f.quotient_lt (u / den)
  have fills := f.le_quotient (u := u / den)
  rw [quotient] at fits fills
  unfold nearest
  generalize f.excess (u / den) = s at *
  have wide : 0 < den * 2 ^ s := Nat.mul_pos positive (Nat.two_pow_pos s)
  have lower := le_roundQuotient u (den * 2 ^ s)
  have upper := roundQuotient_le u (den * 2 ^ s)
  generalize rounded : roundQuotient u (den * 2 ^ s) = q at *
  obtain ⟨above, below, strictly⟩ := roundQuotient_near wide rounded.symm
  have binade : f.binade = 2 ^ f.fraction := rfl
  have le : q ≤ 2 * f.binade := by
    rw [Nat.pow_succ] at fits
    omega
  have normal : 0 < s → f.binade ≤ q := by
    intro shifted
    have := fills shifted
    omega
  obtain ⟨low, high, parity⟩ := interval_place some le normal
  have stretched (n : Nat) : 4 * (n * 2 ^ s) * den = 4 * (n * (den * 2 ^ s)) := by ac_rfl
  have step : 2 * 2 ^ s * den = 2 * (den * 2 ^ s) := by ac_rfl
  have high' := Nat.mul_le_mul_right den high
  rw [Nat.add_mul, stretched, step] at high'
  rw [holds_iff]
  simp only [Interval.stretch]
  rcases low with low | ⟨first, shifted, low⟩
  · have low' := Nat.mul_le_mul_right den low
    rw [Nat.sub_mul, stretched, step] at low'
    refine ⟨by omega, by omega, fun isOpen => ?_⟩
    have odd := parity isOpen
    have strict := strictly odd
    have one : den * 2 ^ s ≤ q * (den * 2 ^ s) := Nat.le_mul_of_pos_left _ (by omega)
    omega
  · -- where an exponent begins, the quotient does not lie below the place, which is even
    have low' := Nat.mul_le_mul_right den low
    rw [stretched] at low'
    have reached := (Nat.le_div_iff_mul_le wide).1 (fills shifted)
    rw [← binade, ← first] at reached
    have even := f.binade_even some
    refine ⟨by omega, by omega, fun isOpen => ?_⟩
    have odd := parity isOpen
    omega

/-- A quotient in the interval of a finite number is rounded to it. -/
theorem round_eq_of_holds (some : 0 < f.fraction) (positive : 0 < den) (finite : o < f.infinite)
    (holds : ((interval f o).stretch den).holds (4 * f.unitsInOne * num) = true) : f.round num den = o := by
  have units : 4 * f.unitsInOne * num = 4 * (num * f.unitsInOne) := by ac_rfl
  rw [units] at holds
  have same := eq_of_holds some positive (holds_nearest some positive _) holds
  rw [round_eq, same]
  exact Nat.min_eq_left (Nat.le_of_lt finite)

/-! ## Decimals -/

/-- The shortest digits of a number other than zero are not zero, which lies in the interval of zero. -/
theorem shortest_digits_ne_zero (written : f.Written) (nonzero : o ≠ 0) : (shortest f o).digits ≠ 0 := by
  intro none
  obtain ⟨-, holds⟩ := shortest_holds written nonzero
  rw [scaled, none, Nat.zero_mul, Nat.mul_zero] at holds
  exact nonzero (eq_of_holds written.fraction (Nat.pow_pos (by decide)) holds (holds_zero f _))

theorem holds_of_stretch {i : Interval} (positive : 0 < k)
    (holds : (i.stretch (den * k)).holds (y * k) = true) : (i.stretch den).holds y = true := by
  rw [holds_iff] at holds ⊢
  simp only [Interval.stretch, ← Nat.mul_assoc, Nat.mul_le_mul_right_iff positive,
    Nat.mul_lt_mul_right positive] at holds ⊢
  exact holds

end Floating

/-- A written format whose numbers have fewer places before the point than are kept behind it. -/
structure Format.Bounded (f : Format) : Prop extends f.Written where
  bound : f.units f.infinite ≤ f.unitsInOne * 10 ^ (Floating.places - 1)

theorem Format.bounded_double : Format.double.Bounded where
  toWritten := written_double
  bound := by decide +kernel

namespace Floating

open Format

variable {f : Format} {o : Nat} {d : Digits}

/-- Digits in the interval of a finite number have the places of one. -/
theorem top_le_of_holds (bounded : f.Bounded) (finite : o < f.infinite) (some : d.digits ≠ 0)
    (fine : 0 ≤ d.exponent + places)
    (holds : ((interval f o).stretch (10 ^ places)).holds (4 * f.unitsInOne * scaled d) = true) :
    d.exponent + Decimal.digitCount d.digits ≤ 400 := by
  have unit : 0 < f.unitsInOne := Nat.two_pow_pos _
  have high : (interval f o).high ≤ 4 * f.units f.infinite :=
    Nat.le_trans (interval_high_le finite) (Nat.sub_le _ _)
  have below : 4 * f.unitsInOne * scaled d ≤ 4 * f.unitsInOne * 10 ^ (places - 1 + places) :=
    calc 4 * f.unitsInOne * scaled d ≤ (interval f o).high * 10 ^ places := (holds_iff.1 holds).2.1
      _ ≤ 4 * (f.unitsInOne * 10 ^ (places - 1)) * 10 ^ places :=
        Nat.mul_le_mul_right _ (Nat.le_trans high (Nat.mul_le_mul_left 4 bounded.bound))
      _ = 4 * f.unitsInOne * 10 ^ (places - 1 + places) := by rw [Nat.pow_add, ← Nat.mul_assoc, ← Nat.mul_assoc]
  have value := Nat.le_of_mul_le_mul_left below (by omega)
  have count := digitCount_pos d.digits
  have lead : 10 ^ (Decimal.digitCount d.digits - 1) ≤ d.digits := by
    rcases Nat.lt_or_ge 1 (Decimal.digitCount d.digits) with more | one
    · exact pow_le_of_lt_digitCount (by omega) (by omega)
    · rw [Nat.sub_eq_zero_of_le one]
      omega
  have power : 10 ^ (Decimal.digitCount d.digits - 1 + (d.exponent + places).toNat) ≤ 10 ^ (places - 1 + places) := by
    rw [Nat.pow_add]
    exact Nat.le_trans (Nat.mul_le_mul_right _ lead) value
  have exponents := (Nat.pow_le_pow_iff_right (by decide)).1 power
  have room : places = 400 := rfl
  omega

/-- **Digits in the interval of a finite number are rounded to it.** -/
theorem round_of_holds (bounded : f.Bounded) (finite : o < f.infinite) (negative : Bool)
    (fine : 0 ≤ d.exponent + places)
    (holds : ((interval f o).stretch (10 ^ places)).holds (4 * f.unitsInOne * scaled d) = true) :
    Decimal.round f ⟨negative, d.digits, d.exponent⟩ = ⟨negative, o⟩ := by
  have kept : 0 < 10 ^ places := Nat.pow_pos (by decide)
  by_cases zero : d.digits = 0
  · rw [scaled, zero, Nat.zero_mul, Nat.mul_zero] at holds
    rw [eq_of_holds bounded.fraction kept holds (holds_zero f _)]
    simp [Decimal.round, zero]
  · have count := digitCount_pos d.digits
    have top := top_le_of_holds bounded finite zero fine holds
    have room : places = 400 := rfl
    rw [Decimal.round_of_places negative (by omega)]
    congr 1
    split
    · next whole =>
      apply round_eq_of_holds bounded.fraction Nat.one_pos finite
      apply holds_of_stretch kept
      have power : (d.exponent + places).toNat = d.exponent.toNat + places := by omega
      rw [scaled, power, Nat.pow_add, ← Nat.mul_assoc, ← Nat.mul_assoc, Nat.mul_assoc (4 * f.unitsInOne)] at holds
      rwa [Nat.one_mul]
    · next part =>
      apply round_eq_of_holds bounded.fraction (Nat.pow_pos (by decide)) finite
      apply holds_of_stretch (k := 10 ^ (d.exponent + places).toNat) (Nat.pow_pos (by decide))
      have power : 10 ^ places = 10 ^ (-d.exponent).toNat * 10 ^ (d.exponent + places).toNat := by
        rw [← Nat.pow_add]
        congr 1
        omega
      rw [scaled, power, ← Nat.mul_assoc] at holds
      exact holds

/-- The text of a finite number reads as a decimal that is rounded to it. -/
theorem round_unsigned?_magnitudeText (bounded : f.Bounded) (finite : o < f.infinite) {d : Decimal}
    (read : Decimal.unsigned? false (magnitudeText f o) = some d) (negative : Bool) :
    Decimal.round f { d with negative } = ⟨negative, o⟩ := by
  obtain ⟨shown, read', fine, holds⟩ := exists_unsigned?_magnitudeText bounded.toWritten o
  rw [read, Option.some.injEq] at read'
  rw [read']
  exact round_of_holds bounded finite negative fine holds

end Floating

end Collate
