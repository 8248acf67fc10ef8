import Collate.Json.Comparer
import Collate.Proofs.Comparer.Preorder
import Collate.Proofs.Floating.Rounding
import Collate.Proofs.Json.Order
import Collate.Proofs.Json.Value

/-!
# Numbers by value and by place

Two integers are compared as they are, and any other two numbers by their places in the 64-bit
format. Where no two different integers share a place, comparing by place is all there is, and
numbers are totally preordered. Integers of up to 2⁵³ in size have places of their own.
-/

set_option autoImplicit false

namespace Collate

namespace Number

variable {I : Int → Prop} {a b c : Number}

/-- The place of a number among those of the 64-bit format. -/
def place (n : Number) : Int := n.toDouble.rank

/-- No two different integers of a class become the same number of the 64-bit format. -/
def Faithful (I : Int → Prop) : Prop :=
  ∀ m n, I m → I n → (Number.int m).toDouble = (Number.int n).toDouble → m = n

theorem place_int (n : Int) : (Number.int n).place = (Floating.ofInt n : Double).rank :=
  Floating.rank_normalizeZero _

theorem place_float (x : Double) : (Number.float x).place = x.rank :=
  Floating.rank_normalizeZero _

theorem toDouble_eq_of_place_eq (same : a.place = b.place) : a.toDouble = b.toDouble := by
  cases a <;> cases b <;> simp only [place_int, place_float] at same <;>
    exact Floating.normalizeZero_eq_of_rank_eq same

theorem isNaN_normalizeZero {f : Format} {x : Floating f} (number : x.isNaN = false) :
    x.normalizeZero.isNaN = false := by
  unfold Floating.normalizeZero
  split
  · rfl
  · exact number

/-- What can be represented is a number. -/
theorem Representable.isNaN_toDouble (representable : a.Representable) : a.toDouble.isNaN = false := by
  cases a with
  | int n => exact isNaN_normalizeZero (Floating.isNaN_ofInt n)
  | float x =>
    apply isNaN_normalizeZero
    have finite : x.ordinal < Format.double.infinite := by
      simpa [Representable, Floating.isFinite] using representable
    simp only [Floating.isNaN, decide_eq_false_iff_not]
    omega

theorem compare_toDouble (aFits : a.Representable) (bFits : b.Representable) :
    a.toDouble.compare b.toDouble = Ord.compare a.place b.place := by
  rw [Floating.compare, aFits.isNaN_toDouble, bFits.isNaN_toDouble, place, place]

/-- Numbers that tie are one number of the 64-bit format. -/
theorem toDouble_eq_of_compare_eq (aFits : a.Representable) (bFits : b.Representable)
    (tie : a.compare b = .eq) : a.toDouble = b.toDouble := by
  have places (same : a.toDouble.compare b.toDouble = .eq) : a.toDouble = b.toDouble := by
    rw [compare_toDouble aFits bFits] at same
    exact toDouble_eq_of_place_eq (Std.LawfulEqOrd.eq_of_compare same)
  cases a with
  | float x => exact places tie
  | int m =>
    cases b with
    | float y => exact places tie
    | int n =>
      have same : m = n := Std.LawfulEqOrd.eq_of_compare tie
      rw [same]

/-- Turning a comparison of numbers around turns its answer around. -/
theorem compare_swap (a b : Number) : b.compare a = (a.compare b).swap := by
  have doubles (x y : Double) : y.compare x = (x.compare y).swap := by
    unfold Floating.compare
    cases x.isNaN <;> cases y.isNaN <;> first | rfl | exact Std.OrientedOrd.eq_swap
  cases a with
  | float x =>
    cases b with
    | float y => exact doubles x.normalizeZero y.normalizeZero
    | int n => exact doubles x.normalizeZero (Number.int n).toDouble
  | int m =>
    cases b with
    | float y => exact doubles (Number.int m).toDouble y.normalizeZero
    | int n => exact Std.OrientedOrd.eq_swap

theorem place_int_mono {m n : Int} (le : m ≤ n) : (Number.int m).place ≤ (Number.int n).place := by
  rw [place_int, place_int]
  exact Floating.rank_ofInt_mono le

/-- Among integers with places of their own, numbers are compared by place. -/
theorem compare_eq_compare_place (faithful : Faithful I) (aFits : a.Representable)
    (bFits : b.Representable) (aAmong : a.Among I) (bAmong : b.Among I) :
    a.compare b = Ord.compare a.place b.place := by
  cases a with
  | float x => exact compare_toDouble aFits bFits
  | int m =>
    cases b with
    | float y => exact compare_toDouble aFits bFits
    | int n =>
      have strictly {k l : Int} (kAmong : I k) (lAmong : I l) (less : k < l) :
          (Number.int k).place < (Number.int l).place := by
        have le := place_int_mono (Int.le_of_lt less)
        have apart : (Number.int k).place ≠ (Number.int l).place := by
          intro same
          have one := faithful k l kAmong lAmong (toDouble_eq_of_place_eq same)
          omega
        omega
      change Ord.compare m n = _
      rcases Int.lt_trichotomy m n with less | rfl | greater
      · rw [Int.compare_eq_lt.2 less, Int.compare_eq_lt.2 (strictly aAmong bAmong less)]
      · rw [Std.ReflOrd.compare_self, Std.ReflOrd.compare_self]
      · rw [Int.compare_eq_gt.2 greater, Int.compare_eq_gt.2 (strictly bAmong aAmong greater)]

/-- Numbers are totally preordered where different integers have different places. -/
theorem totalPreorderOn_compare (faithful : Faithful I) :
    Comparison.TotalPreorderOn Number.compare fun n => n.Representable ∧ n.Among I := by
  have integers : Comparison.TotalPreorderOn (Ord.compare : Comparison Int) fun _ => True :=
    Comparison.totalPreorderOn_of_transCmp fun _ => True
  have places := integers.comap place
  refine ⟨fun a b _ _ => compare_swap a b, ?_⟩
  rintro a b c ⟨aFits, aAmong⟩ ⟨bFits, bAmong⟩ ⟨cFits, cAmong⟩
  rw [compare_eq_compare_place faithful aFits bFits aAmong bAmong,
    compare_eq_compare_place faithful bFits cFits bAmong cAmong,
    compare_eq_compare_place faithful aFits cFits aAmong cAmong]
  exact places.trans a b c trivial trivial trivial

/-- Integers of up to 2⁵³ in size have places of their own. -/
theorem faithful_of_natAbs_le : Faithful fun n => n.natAbs ≤ 2 ^ 53 := by
  intro m n mBound nBound same
  have places : (Number.int m).place = (Number.int n).place := congrArg Floating.rank same
  rw [place_int, place_int] at places
  rcases Int.lt_trichotomy m n with less | same | greater
  · have apart := Floating.rank_ofInt_strictMono mBound nBound less
    omega
  · exact same
  · have apart := Floating.rank_ofInt_strictMono nBound mBound greater
    omega

/-- The number of the 64-bit format that an integer becomes ties with it. -/
theorem compare_int_float (n : Int) : (Number.int n).compare (.float (Floating.ofInt n)) = .eq :=
  Floating.compare_self (Number.int n).toDouble

end Number

end Collate
