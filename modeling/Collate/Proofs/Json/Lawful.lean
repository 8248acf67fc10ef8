import Collate.Proofs.Json.Preorder

/-!
# When comparing JSON values is lawful

Equality is reflexive and symmetric and the order turns around, for all values. Both are passed
on from value to value exactly where no two different integers become one number of the 64-bit
format. Integers of up to 2⁵³ in size are such; of larger ones two neighbours can become one
number, which each of them ties with while they do not tie with each other.
-/

set_option autoImplicit false

namespace Collate.Json

variable {I : Int → Prop}

/-- A finite number ties with both of two integers that become it. -/
theorem tied_of_toDouble_eq {m n : Int} (same : (Number.int m).toDouble = (Number.int n).toDouble) :
    (Number.float (Floating.ofInt m)).compare (.int n) = .eq := by
  change (Number.int m).toDouble.compare (Number.int n).toDouble = .eq
  rw [same]
  exact Floating.compare_self _

/-- The number that an integer of a machine word becomes is a value as reading gives it. -/
theorem over_ofInt {m : Int} (fits : (Number.int m).Representable) :
    (Json.number (.float (Floating.ofInt m))).Over I := by
  have bound : m.natAbs ≤ 2 ^ 64 := by
    simp only [Number.Representable] at fits
    omega
  exact ⟨wellFormed_number_iff.2 (Floating.isFinite_ofInt bound), trivial⟩

theorem over_int {m : Int} (fits : (Number.int m).Representable) (among : I m) :
    (Json.number (.int m)).Over I :=
  ⟨wellFormed_number_iff.2 fits, among⟩

/-- Where equality is passed on, no two different integers become one number. -/
theorem faithful_of_equals_trans {fold : Bool} (fits : ∀ n, I n → (Number.int n).Representable)
    (trans : ∀ a b c : Json, a.Over I → b.Over I → c.Over I → equals fold a b = true →
      equals fold b c = true → equals fold a c = true) : Number.Faithful I := by
  intro m n mAmong nAmong same
  have tie := trans (.number (.int m)) (.number (.float (Floating.ofInt m))) (.number (.int n))
    (over_int (fits m mAmong) mAmong) (over_ofInt (fits m mAmong)) (over_int (fits n nAmong) nAmong)
    (equals_number_iff.2 (Number.compare_int_float m)) (equals_number_iff.2 (tied_of_toDouble_eq same))
  exact Std.LawfulEqOrd.eq_of_compare (equals_number_iff.1 tie)

/-- Where the order is passed on, no two different integers become one number. -/
theorem faithful_of_order_trans {fold : Bool} (fits : ∀ n, I n → (Number.int n).Representable)
    (trans : ∀ a b c : Json, a.Over I → b.Over I → c.Over I → order fold a b ≠ .gt →
      order fold b c ≠ .gt → order fold a c ≠ .gt) : Number.Faithful I := by
  have le {m n : Int} (mAmong : I m) (nAmong : I n)
      (same : (Number.int m).toDouble = (Number.int n).toDouble) : m ≤ n := by
    have first : order fold (.number (.int m)) (.number (.float (Floating.ofInt m))) ≠ .gt := by
      rw [order, Number.compare_int_float]
      decide
    have second : order fold (.number (.float (Floating.ofInt m))) (.number (.int n)) ≠ .gt := by
      rw [order, tied_of_toDouble_eq same]
      decide
    have third := trans _ _ _ (over_int (fits m mAmong) mAmong) (over_ofInt (fits m mAmong))
      (over_int (fits n nAmong) nAmong) first second
    rw [order] at third
    exact Int.compare_ne_gt.1 third
  intro m n mAmong nAmong same
  exact Int.le_antisymm (le mAmong nAmong same) (le nAmong mAmong same.symm)

/-- Equality is an equivalence and the order a total preorder as far as they are passed on, and
both are passed on among values with integers of a class exactly if no two of the class become one
number of the 64-bit format. -/
theorem lawful_iff_faithful (fold : Bool) (fits : ∀ n, I n → (Number.int n).Representable) :
    (∀ a : Json, a.WellFormed → equals fold a a = true) ∧
    (∀ a b : Json, a.WellFormed → b.WellFormed → equals fold a b = true → equals fold b a = true) ∧
    ((∀ a b c : Json, a.Over I → b.Over I → c.Over I → equals fold a b = true →
        equals fold b c = true → equals fold a c = true) ↔ Number.Faithful I) ∧
    (∀ a : Json, order fold a a = .eq) ∧
    (∀ a b : Json, order fold b a = (order fold a b).swap) ∧
    ((∀ a b c : Json, a.Over I → b.Over I → c.Over I → order fold a b ≠ .gt →
        order fold b c ≠ .gt → order fold a c ≠ .gt) ↔ Number.Faithful I) := by
  refine ⟨fun a => equals_self, fun a b => equals_symm, ?_, order_self fold, order_swap fold, ?_⟩
  · constructor
    · exact faithful_of_equals_trans fits
    · intro faithful a b c
      exact equals_trans faithful
  · constructor
    · exact faithful_of_order_trans fits
    · intro faithful
      exact (totalPreorderOn_order fold faithful).trans

/-- So both are lawful among values with integers of up to 2⁵³ in size. -/
theorem lawful_up_to_53_bits :
    (∀ n : Int, n.natAbs ≤ 2 ^ 53 → (Number.int n).Representable) ∧
    Comparison.TotalPreorderOn (order true) (Over fun n => n.natAbs ≤ 2 ^ 53) := by
  have fits (n : Int) (bound : n.natAbs ≤ 2 ^ 53) : (Number.int n).Representable := by
    simp only [Number.Representable]
    omega
  have laws := lawful_iff_faithful (I := fun n => n.natAbs ≤ 2 ^ 53) true fits
  obtain ⟨-, -, -, -, swap, trans⟩ := laws
  exact ⟨fits, fun a b _ _ => swap a b, trans.2 Number.faithful_of_natAbs_le⟩

/-- An integer past 2⁵³ in size ties with its neighbour's number but not with the neighbour. -/
theorem past_53_bits_not_transitive :
    let a := Json.number (.int 9007199254740993)
    let b := Json.number (.float (Floating.ofInt 9007199254740992))
    let c := Json.number (.int 9007199254740992)
    (a.WellFormed ∧ b.WellFormed ∧ c.WellFormed) ∧
    (∀ fold, equals fold a b = true ∧ equals fold b c = true ∧ equals fold a c = false) ∧
    (∀ fold, order fold a b = .eq ∧ order fold b c = .eq ∧ order fold a c = .gt) := by
  refine ⟨⟨?_, ?_, ?_⟩, ?_, ?_⟩
  · exact wellFormed_number_iff.2 (by simp [Number.Representable])
  · exact wellFormed_number_iff.2 (Floating.isFinite_ofInt (by decide))
  · exact wellFormed_number_iff.2 (by simp [Number.Representable])
  · decide +kernel
  · decide +kernel

end Collate.Json
