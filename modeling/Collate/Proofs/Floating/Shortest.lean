import Collate.Floating.Shortest
import Collate.Proofs.Floating.Rounding

/-!
# Shortest digits tell numbers apart

The intervals of values that round to the numbers of a format lie one behind the other: each ends
where the next begins, and this end belongs to the one with the even significand. The search for
the shortest digits ends with digits inside the interval, since seventeen digits are never further
apart than an interval is wide. So different numbers have digits of different values.
-/

set_option autoImplicit false

namespace Collate

namespace Format

variable (f : Format) {o : Nat}

/-! ## Numbers in a row -/

theorem binade_pos : 0 < f.binade := Nat.two_pow_pos f.fraction

theorem binade_even (some : 0 < f.fraction) : f.binade % 2 = 0 :=
  Nat.mod_eq_zero_of_dvd (Nat.pow_dvd_pow 2 some)

theorem units_zero : f.units 0 = 0 := by simp [units, significand, f.binade_pos]

theorem significand_lt (o : Nat) : f.significand o < 2 * f.binade := by
  have rest := Nat.mod_lt o f.binade_pos
  unfold significand
  split <;> omega

/-- The next ordinal has the next significand, or the first one of the next exponent. -/
theorem next_cases (o : Nat) :
    (f.shift (o + 1) = f.shift o ∧ f.significand (o + 1) = f.significand o + 1 ∧
      (f.significand (o + 1) = f.binade → f.shift o = 0)) ∨
    (f.shift (o + 1) = f.shift o + 1 ∧ f.significand o + 1 = 2 * f.binade ∧
      f.significand (o + 1) = f.binade) := by
  have positive := f.binade_pos
  unfold shift significand
  rcases Nat.lt_or_ge o f.binade with small | large
  · left
    have none : o / f.binade = 0 := Nat.div_eq_of_lt small
    rcases Nat.lt_or_ge (o + 1) f.binade with less | reached
    · have none' : (o + 1) / f.binade = 0 := Nat.div_eq_of_lt less
      rw [if_pos small, if_pos less]
      omega
    · have same : o + 1 = f.binade := by omega
      have one : (o + 1) / f.binade = 1 := by rw [same, Nat.div_self positive]
      have zero : (o + 1) % f.binade = 0 := by rw [same, Nat.mod_self]
      rw [if_pos small, if_neg (by omega)]
      omega
  · have whole := Nat.div_add_mod o f.binade
    have rest := Nat.mod_lt o positive
    have exponent : 1 ≤ o / f.binade := (Nat.le_div_iff_mul_le positive).2 (by omega)
    rw [if_neg (by omega), if_neg (by omega)]
    rcases Nat.lt_or_eq_of_le (Nat.succ_le_of_lt rest) with less | last
    · left
      have step : o + 1 = f.binade * (o / f.binade) + (o % f.binade + 1) := by omega
      have same : (o + 1) / f.binade = o / f.binade := by
        rw [step, Nat.mul_add_div positive, Nat.div_eq_of_lt less, Nat.add_zero]
      have next : (o + 1) % f.binade = o % f.binade + 1 := by
        rw [step, Nat.mul_add_mod, Nat.mod_eq_of_lt less]
      omega
    · right
      have step : o + 1 = f.binade * (o / f.binade + 1) := by
        rw [Nat.mul_add]
        omega
      have next : (o + 1) / f.binade = o / f.binade + 1 := by rw [step, Nat.mul_div_cancel_left _ positive]
      have zero : (o + 1) % f.binade = 0 := by rw [step, Nat.mul_mod_right]
      omega

/-- The next number is one unit of the last place further. -/
theorem units_succ (o : Nat) : f.units (o + 1) = f.units o + 2 ^ f.shift o := by
  unfold units
  rw [Nat.pow_eq, Nat.pow_eq]
  rcases f.next_cases o with ⟨shift, significand, -⟩ | ⟨shift, last, significand⟩
  · rw [shift, significand, Nat.add_mul, Nat.one_mul]
  · have doubled : f.binade * 2 ^ (f.shift o + 1) = (f.significand o + 1) * 2 ^ f.shift o := by
      rw [last, Nat.pow_succ, Nat.mul_comm 2 f.binade, Nat.mul_assoc, Nat.mul_comm 2]
    rw [shift, significand, doubled, Nat.add_mul, Nat.one_mul]

theorem significand_parity (some : 0 < f.fraction) (o : Nat) : f.significand o % 2 = o % 2 := by
  have even := f.binade_even some
  have whole := Nat.div_add_mod o f.binade
  have evens : f.binade * (o / f.binade) % 2 = 0 := by rw [Nat.mul_mod, even, Nat.zero_mul]
  unfold significand
  split <;> omega

end Format

namespace Floating

open Format

variable {f : Format} {o o' : Nat} {i : Interval} {grid k y : Nat}

/-! ## Intervals in a row -/

/-- Each interval ends where the next begins. -/
theorem interval_high_eq (f : Format) (o : Nat) : (interval f o).high = (interval f (o + 1)).low := by
  have units := f.units_succ o
  simp only [interval, Nat.pow_eq, Bool.and_eq_true, decide_eq_true_eq]
  rcases f.next_cases o with ⟨shift, -, least⟩ | ⟨shift, -, first⟩
  · have regular : ¬ (f.significand (o + 1) = f.binade ∧ 0 < f.shift (o + 1)) := by
      rintro ⟨first, shifted⟩
      have := least first
      omega
    rw [if_neg regular, units, shift]
    omega
  · have halved : 2 ^ f.shift (o + 1) = 2 * 2 ^ f.shift o := by rw [shift, Nat.pow_succ, Nat.mul_comm]
    rw [if_pos ⟨first, by omega⟩, units, halved]
    omega

theorem interval_low_lt_high (f : Format) (o : Nat) : (interval f o).low < (interval f o).high := by
  have step : 0 < 2 ^ f.shift o := Nat.two_pow_pos _
  simp only [interval, Nat.pow_eq]
  omega

/-- A later interval begins where an earlier one ends, or behind it. -/
theorem interval_high_le (less : o < o') : (interval f o).high ≤ (interval f o').low := by
  induction less with
  | refl => exact Nat.le_of_eq (interval_high_eq f o)
  | @step o' _ ih =>
    rw [Nat.succ_eq_add_one]
    have order := interval_low_lt_high f o'
    have next := interval_high_eq f o'
    omega

theorem holds_iff :
    i.holds y = true ↔ i.low ≤ y ∧ y ≤ i.high ∧ (i.closed = false → i.low < y ∧ y < i.high) := by
  unfold Interval.holds
  cases closed : i.closed
  · simp
    omega
  · simp

/-- The interval of zero holds it. -/
theorem holds_zero (f : Format) (k : Nat) : ((interval f 0).stretch k).holds 0 = true := by
  have even : f.significand 0 % 2 = 0 := by simp [significand, f.binade_pos]
  rw [holds_iff]
  simp [Interval.stretch, interval, f.units_zero, even]

/-- No value rounds to two numbers: where two intervals meet, one of them is open. -/
theorem eq_of_holds (some : 0 < f.fraction) (positive : 0 < k)
    (here : ((interval f o).stretch k).holds y = true)
    (there : ((interval f o').stretch k).holds y = true) : o = o' := by
  have apart {p q : Nat} (less : p < q) (here : ((interval f p).stretch k).holds y = true)
      (there : ((interval f q).stretch k).holds y = true) : False := by
    obtain ⟨-, below, here⟩ := holds_iff.1 here
    obtain ⟨above, -, there⟩ := holds_iff.1 there
    have meet : (interval f p).high * k ≤ (interval f q).low * k :=
      Nat.mul_le_mul_right k (interval_high_le less)
    simp only [Interval.stretch] at below above here there
    by_cases even : f.significand p % 2 = 0
    · by_cases even' : f.significand q % 2 = 0
      · -- both have even significands, so an interval lies between them
        rw [f.significand_parity some] at even even'
        have between := interval_high_le (f := f) (show p + 1 < q by omega)
        have wide := interval_low_lt_high f (p + 1)
        have next := interval_high_eq f p
        have strict : (interval f p).high * k < (interval f q).low * k :=
          Nat.mul_lt_mul_of_pos_right (by omega) positive
        omega
      · have strict := there (by simpa [interval] using even')
        omega
    · have strict := here (by simpa [interval] using even)
      omega
  rcases Nat.lt_trichotomy o o' with less | same | greater
  · exact (apart less here there).elim
  · exact same
  · exact (apart greater there here).elim

/-! ## Hits -/

/-- A multiple that is found lies in the interval. -/
theorem holds_of_nearest? {c : Nat} (hit : i.nearest? grid = some c) : i.holds (c * grid) = true := by
  unfold Interval.nearest? at hit
  dsimp only at hit
  split at hit
  · next low high =>
    cases hit
    have lower := le_roundQuotient i.value grid
    have upper := roundQuotient_le i.value grid
    rcases Nat.lt_or_eq_of_le upper with less | same
    · have same : roundQuotient i.value grid = i.value / grid := by omega
      rwa [same]
    · rwa [same]
  · next low _ =>
    cases hit
    exact low
  · next _ high =>
    cases hit
    exact high
  · cases hit

/-- An interval wider than the distance of the multiples holds one of them. -/
theorem exists_nearest? (positive : 0 < grid) (low : i.low < i.value) (high : i.value < i.high)
    (wide : i.low + grid < i.high) : ∃ c, i.nearest? grid = some c := by
  have quotient := Nat.div_mul_le_self i.value grid
  have next : i.value < (i.value / grid + 1) * grid := by
    rw [Nat.mul_comm]
    exact Nat.lt_mul_div_succ i.value positive
  have hit : i.holds (i.value / grid * grid) = true ∨ i.holds ((i.value / grid + 1) * grid) = true := by
    rw [holds_iff, holds_iff]
    rw [Nat.add_mul] at next ⊢
    rcases Nat.lt_or_ge i.low (i.value / grid * grid) with inside | outside
    · left
      omega
    · right
      omega
  unfold Interval.nearest?
  dsimp only
  rcases hit with hit | hit <;> rw [hit] <;> split <;> simp_all

/-- The value of digits, counted in the last of the places kept below a natural number. -/
def scaled (d : Digits) : Nat := d.digits * 10 ^ (d.exponent + places).toNat

/-- The search ends with digits in the interval, if it does with seventeen at the latest. -/
theorem firstHit_holds {top : Nat} (room : 17 < top)
    (last : ∃ c, i.nearest? (4 * f.unitsInOne * Nat.pow 10 (top - 17)) = some c) {tries count : Nat}
    (left : 0 < tries) (sum : tries + count = 18) :
    0 ≤ (firstHit f i top tries count).exponent + places ∧
      i.holds (4 * f.unitsInOne * scaled (firstHit f i top tries count)) = true := by
  induction tries generalizing count with
  | zero => cases left
  | succ tries ih =>
    rw [firstHit]
    cases hit : i.nearest? (4 * f.unitsInOne * Nat.pow 10 (top - count)) with
    | some c =>
      have power : ((top : Int) - count - places + places).toNat = top - count := by omega
      have inside := holds_of_nearest? hit
      refine ⟨?_, ?_⟩
      · change 0 ≤ (top : Int) - count - places + places
        omega
      · rw [scaled, power, Nat.mul_left_comm]
        rwa [Nat.pow_eq] at inside
    | none =>
      have more : 0 < tries := by
        rcases Nat.eq_zero_or_pos tries with rfl | more
        · obtain ⟨c, found⟩ := last
          obtain rfl : count = 17 := by omega
          rw [found] at hit
          cases hit
        · exact more
      exact ih more (by omega)

theorem scaled_trimZeros (room : Nat) {d : Digits} (fine : 0 ≤ d.exponent + places) :
    0 ≤ (trimZeros room d).exponent + places ∧ scaled (trimZeros room d) = scaled d := by
  induction room generalizing d with
  | zero => exact ⟨fine, rfl⟩
  | succ room ih =>
    rw [trimZeros]
    split
    · next zero =>
      obtain ⟨fine', same⟩ := ih (d := ⟨d.digits / 10, d.exponent + 1⟩) (by dsimp only; omega)
      refine ⟨fine', same.trans ?_⟩
      have power : (d.exponent + 1 + places).toNat = (d.exponent + places).toNat + 1 := by omega
      have digits : d.digits / 10 * 10 = d.digits := Nat.div_mul_cancel (Nat.dvd_of_mod_eq_zero zero)
      rw [scaled, scaled, power, Nat.pow_succ, Nat.mul_comm (10 ^ _) 10, ← Nat.mul_assoc, digits]
    · exact ⟨fine, rfl⟩

end Floating

/-! ## Seventeen digits -/

/-- A format whose significands have no more than sixteen digits, and none of whose numbers is too
small for the places kept. -/
structure Format.Written (f : Format) : Prop where
  fraction : 0 < f.fraction
  significands : 2 * f.binade ≤ 10 ^ 16
  range : f.unitsInOne * 10 ^ 17 ≤ 10 ^ Floating.places

theorem Format.written_double : Format.double.Written where
  fraction := by decide
  significands := by decide
  range := by decide +kernel

namespace Floating

variable {f : Format} {o o' : Nat}

theorem units_pos (nonzero : o ≠ 0) : 0 < f.units o := by
  have positive := f.binade_pos
  have significand : 0 < f.significand o := by
    unfold Format.significand
    split <;> omega
  exact Nat.mul_pos significand (Nat.two_pow_pos _)

theorem digitCount_pos (n : Nat) : 0 < Decimal.digitCount n := List.length_pos_iff.2 Nat.toDigits_ne_nil

theorem pow_le_of_lt_digitCount {n k : Nat} (positive : 0 < k) (more : k < Decimal.digitCount n) : 10 ^ k ≤ n := by
  have fewer := Nat.length_toDigits_le_iff (b := 10) (n := n) (by decide) positive
  rw [Decimal.digitCount] at more
  omega

theorem lt_digitCount_of_pow_le {n k : Nat} (positive : 0 < k) (le : 10 ^ k ≤ n) : k < Decimal.digitCount n := by
  have fewer := Nat.length_toDigits_le_iff (b := 10) (n := n) (by decide) positive
  rw [Decimal.digitCount]
  omega

/-- A number has more than seventeen digits in the places kept, and the decimals with its first
seventeen are so close together that its significand counts them with more than sixteen digits. -/
theorem leading_digits (written : f.Written) (nonzero : o ≠ 0) {top : Nat}
    (digits : top = Decimal.digitCount (4 * f.units o * 10 ^ places / (4 * f.unitsInOne))) :
    17 < top ∧
      f.unitsInOne * 10 ^ (top - 17) * 10 ^ 16 ≤ f.significand o * (2 ^ f.shift o * 10 ^ places) := by
  have unit : 0 < f.unitsInOne := Nat.two_pow_pos _
  have range := written.range
  generalize 10 ^ places = P at *
  have many : 10 ^ 17 ≤ 4 * f.units o * P / (4 * f.unitsInOne) := by
    rw [Nat.le_div_iff_mul_le (by omega)]
    have large : P ≤ f.units o * P := Nat.le_mul_of_pos_left P (units_pos nonzero)
    rw [Nat.mul_assoc 4]
    omega
  have room : 17 < top := digits ▸ lt_digitCount_of_pow_le (by decide) many
  have lead : 10 ^ (top - 1) ≤ 4 * f.units o * P / (4 * f.unitsInOne) :=
    pow_le_of_lt_digitCount (by omega) (by rw [← digits]; omega)
  have split : 10 ^ (top - 1) = 10 ^ (top - 17) * 10 ^ 16 := by
    rw [← Nat.pow_add]
    congr 1
    omega
  refine ⟨room, ?_⟩
  rw [split, Nat.le_div_iff_mul_le (by omega), Format.units, Nat.pow_eq] at lead
  generalize 10 ^ (top - 17) = W at *
  have left : W * 10 ^ 16 * (4 * f.unitsInOne) = 4 * (f.unitsInOne * W * 10 ^ 16) := by ac_rfl
  have right : 4 * (f.significand o * 2 ^ f.shift o) * P = 4 * (f.significand o * (2 ^ f.shift o * P)) := by ac_rfl
  rw [left, right] at lead
  exact Nat.le_of_mul_le_mul_left lead (by decide)

/-- An interval is wider than the distance of decimals that a significand counts with more than
sixteen digits. -/
theorem interval_wide (written : f.Written) (nonzero : o ≠ 0) {gap k : Nat} (positive : 0 < k)
    (bound : gap * 10 ^ 16 ≤ f.significand o * (2 ^ f.shift o * k)) :
    ((interval f o).stretch k).low + 4 * gap < ((interval f o).stretch k).high := by
  have step : 0 < 2 ^ f.shift o * k := Nat.mul_pos (Nat.two_pow_pos _) positive
  have significands := written.significands
  have significand : 0 < f.significand o := Nat.pos_of_mul_pos_right (units_pos nonzero)
  have units : 2 ^ f.shift o ≤ f.units o := Nat.le_mul_of_pos_left _ significand
  simp only [interval, Interval.stretch, Nat.pow_eq, Bool.and_eq_true, decide_eq_true_eq]
  split
  · next first =>
    -- at the start of an exponent the interval is one and a half steps wide, and the gap half of one
    have narrow : 2 * gap * 10 ^ 16 ≤ 2 ^ f.shift o * k * 10 ^ 16 :=
      calc 2 * gap * 10 ^ 16 = 2 * (gap * 10 ^ 16) := Nat.mul_assoc 2 gap _
        _ ≤ 2 * (f.significand o * (2 ^ f.shift o * k)) := Nat.mul_le_mul_left 2 bound
        _ = 2 * f.binade * (2 ^ f.shift o * k) := by rw [first.1, Nat.mul_assoc]
        _ ≤ 10 ^ 16 * (2 ^ f.shift o * k) := Nat.mul_le_mul_right _ significands
        _ = 2 ^ f.shift o * k * 10 ^ 16 := Nat.mul_comm _ _
    have less := Nat.le_of_mul_le_mul_right narrow (by decide)
    have ends : (4 * f.units o + 2 * 2 ^ f.shift o) * k = (4 * f.units o - 2 ^ f.shift o) * k + 3 * (2 ^ f.shift o * k) := by
      rw [← Nat.mul_assoc, ← Nat.add_mul]
      congr 1
      omega
    omega
  · -- elsewhere it is two steps wide, and the gap less than one
    have below := f.significand_lt o
    have narrow : gap * 10 ^ 16 < 2 ^ f.shift o * k * 10 ^ 16 :=
      calc gap * 10 ^ 16 ≤ f.significand o * (2 ^ f.shift o * k) := bound
        _ < 10 ^ 16 * (2 ^ f.shift o * k) := Nat.mul_lt_mul_of_pos_right (by omega) step
        _ = 2 ^ f.shift o * k * 10 ^ 16 := Nat.mul_comm _ _
    have less := Nat.lt_of_mul_lt_mul_right narrow
    have ends : (4 * f.units o + 2 * 2 ^ f.shift o) * k =
        (4 * f.units o - 2 * 2 ^ f.shift o) * k + 4 * (2 ^ f.shift o * k) := by
      rw [← Nat.mul_assoc, ← Nat.add_mul]
      congr 1
      omega
    omega

/-- Decimals of seventeen digits are closer together than the interval of a number is wide. -/
theorem seventeen_digits_suffice (written : f.Written) (nonzero : o ≠ 0) {i : Interval}
    (own : i = (interval f o).stretch (10 ^ places)) {top : Nat}
    (digits : top = Decimal.digitCount (i.value / (4 * f.unitsInOne))) :
    17 < top ∧ ∃ c, i.nearest? (4 * f.unitsInOne * Nat.pow 10 (top - 17)) = some c := by
  have units := units_pos (f := f) nonzero
  have unit : 0 < f.unitsInOne := Nat.two_pow_pos _
  have kept : 0 < 10 ^ places := Nat.pow_pos (by decide)
  have step : 0 < 2 ^ f.shift o := Nat.two_pow_pos _
  subst own
  obtain ⟨room, bound⟩ := leading_digits written nonzero digits
  refine ⟨room, ?_⟩
  have wide := interval_wide written nonzero kept bound
  rw [Nat.pow_eq, Nat.mul_assoc]
  apply exists_nearest?
  · exact Nat.mul_pos (by decide) (Nat.mul_pos unit (Nat.pow_pos (by decide)))
  · apply Nat.mul_lt_mul_of_pos_right _ kept
    simp only [interval, Nat.pow_eq]
    split <;> omega
  · apply Nat.mul_lt_mul_of_pos_right _ kept
    simp only [interval, Nat.pow_eq]
    omega
  · exact wide

/-- **The shortest digits of a number lie in its interval.** -/
theorem shortest_holds (written : f.Written) (nonzero : o ≠ 0) :
    0 ≤ (shortest f o).exponent + places ∧
      ((interval f o).stretch (10 ^ places)).holds (4 * f.unitsInOne * scaled (shortest f o)) = true := by
  rw [shortest, Nat.pow_eq]
  obtain ⟨room, last⟩ := seventeen_digits_suffice written nonzero rfl rfl
  obtain ⟨fine, holds⟩ := firstHit_holds room last (by decide : 0 < 17) (by decide : 17 + 1 = 18)
  obtain ⟨fine', same⟩ := scaled_trimZeros 20 fine
  rw [← same] at holds
  -- the two powers of ten are one as they stand and need not be computed
  constructor
  · with_reducible exact fine'
  · with_reducible exact holds

end Floating

end Collate
