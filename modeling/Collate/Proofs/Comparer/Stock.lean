import Collate.Proofs.Comparer.Folded
import Collate.Proofs.Comparer.Tolerance
import Collate.Proofs.Floating.Value

/-!
# The stock comparers are lawful

What sorting, grouping and joining ask of a comparer holds of every one that comes with the library:
of numbers with a point, of texts without regard to case, and of keys that may be absent, if it holds
of the comparer of the present ones.
-/

set_option autoImplicit false

namespace Collate

/-- A comparison of the values of a format is a total preorder that goes by what numbers stand for
and puts behind them all that is no number. -/
structure Comparison.ByNumber {f : Format} (cmp : Comparison (Floating f)) : Prop where
  laws : cmp.TotalPreorderOn fun _ => True
  numbers : ∀ a b, a.isNaN = false → b.isNaN = false → cmp a b = Ord.compare a.value b.value
  tied : ∀ a b, a.isNaN = true → b.isNaN = true → cmp a b = .eq
  last : ∀ a b, a.isNaN = false → b.isNaN = true → cmp a b = .lt

theorem Floating.byNumber_compare {f : Format} (exponents : 0 < f.exponent) :
    Comparison.ByNumber (Floating.compare : Comparison (Floating f)) where
  laws := totalPreorderOn_compare f
  numbers _ _ := compare_eq_compare_value exponents
  tied a b aNone bNone := by rw [compare, aNone, bNone]
  last a b number none := by rw [compare, number, none]

/-- A comparison of keys that may be absent puts those in front that are, and is a total preorder on
keys of a class in either direction. -/
structure Comparison.AbsentFirst {K : Type} (cmp : Comparison (Option K)) (S : K → Prop) : Prop where
  laws : cmp.TotalPreorderOn fun key => ∀ k ∈ key, S k
  directed : ∀ d : Direction, Comparison.TotalPreorderOn (fun a b => d.apply (cmp a b)) fun key => ∀ k ∈ key, S k
  first : ∀ k, cmp none (some k) = .lt

/-- An equality of keys that may be absent is lawful and tells an absent key from all that are
present, also from those that share its hash. -/
structure Equality.AbsentApart {K : Type} (e : Equality (Option K)) : Prop where
  laws : e.Lawful
  hash_none : e.hash none = 0
  apart : ∀ k, e.equals none (some k) = false ∧ e.equals (some k) none = false

/-- **The stock comparers are lawful.** Numbers of a format are ordered by what they stand for, and all
that is no number ties and comes last. Texts without regard to case are totally preordered and their
equality is lawful; they tie exactly if they are equal, and exactly then are written to a digest
alike. Where a comparer of keys is lawful, it is lawful with absent keys among them. -/
theorem stock_comparers_lawful {K : Type} (S : K → Prop) :
    (∀ f : Format, 0 < f.exponent → Comparison.ByNumber (Floating.compare : Comparison (Floating f))) ∧
    (Comparison.ignoreAsciiCase.TotalPreorderOn fun _ => True) ∧ Equality.ignoreAsciiCase.Lawful ∧
    (∀ s t, (Comparison.ignoreAsciiCase s t = .eq ↔ Equality.ignoreAsciiCase.equals s t = true) ∧
      (Equality.ignoreAsciiCase.equals s t = true ↔ Write.ofFoldedText s = Write.ofFoldedText t)) ∧
    (∀ cmp : Comparison K, cmp.TotalPreorderOn S → cmp.nullable.AbsentFirst S) ∧
    (∀ e : Equality K, e.Lawful → e.nullable.AbsentApart) := by
  refine ⟨fun f => Floating.byNumber_compare, Comparison.totalPreorderOn_ignoreAsciiCase,
    Equality.lawful_ignoreAsciiCase, fun s t => ⟨Comparison.ignoreAsciiCase_eq_iff, ?_⟩, ?_, ?_⟩
  · rw [Equality.ignoreAsciiCase_iff, Equality.ofFoldedText_eq_iff]
  · intro cmp laws
    have absent := laws.nullable
    exact ⟨absent, absent.direct, fun _ => rfl⟩
  · intro e laws
    exact ⟨laws.nullable, rfl, fun _ => ⟨rfl, rfl⟩⟩

/-- Numbers that may be absent: downwards, what is no number comes first and an absent one last; and
where all have one hash, the absent one among them, it is still told apart from zero. -/
theorem stock_comparers_lawful_double :
    let noNumber : Double := ⟨true, Format.double.infinite + 1⟩
    let infinity : Double := ⟨false, Format.double.infinite⟩
    let downwards : Comparison (Option Double) :=
      fun a b => Direction.descending.apply (Comparison.nullable Floating.compare a b)
    let e : Equality Double := ⟨fun a b => decide (a = b), fun _ => 0⟩
    downwards.TotalPreorderOn (fun key => ∀ k ∈ key, True) ∧ downwards (some noNumber) (some infinity) = .lt ∧
      downwards (some infinity) none = .lt ∧ e.Lawful ∧ e.nullable.Lawful ∧
      e.nullable.hash (some .zero) = e.nullable.hash none ∧ e.nullable.equals none (some .zero) = false := by
  intro noNumber infinity downwards e
  have lawful : e.Lawful := by constructor <;> simp_all [e]
  obtain ⟨numbers, -, -, -, ordered, equal⟩ := stock_comparers_lawful fun _ : Double => True
  have byNumber := numbers .double (by decide)
  have absentFirst := ordered _ byNumber.laws
  have absentApart := equal e lawful
  have behind : Floating.compare noNumber infinity = .gt := by
    rw [byNumber.laws.swap infinity noNumber trivial trivial, byNumber.last infinity noNumber (by decide) (by decide)]
    rfl
  refine ⟨absentFirst.directed .descending, ?_, rfl, lawful, absentApart.laws, rfl, (absentApart.apart _).1⟩
  exact congrArg Direction.descending.apply behind

end Collate
