import Collate.Proofs.Comparer.Preorder
import Collate.Proofs.Json.Equality

/-!
# The order of JSON values is a total preorder

Values are ordered by type, and within a type by what they hold. Turning a comparison around
turns its answer around for all values. The order is passed on from value to value where numbers
are totally preordered, which is where no two different integers become one number.
-/

set_option autoImplicit false

namespace Collate.Json

variable {fold : Bool} {a b c : Json}

/-! ## The order by parts -/

section Parts

variable {items items' : List Json} {s t : String}

/-- Values of different types are ordered by type. -/
theorem order_of_rank_ne (ranks : a.rank ≠ b.rank) : order fold a b = compare a.rank b.rank := by
  cases a <;> cases b <;> first | rfl | exact absurd rfl ranks

theorem orderItems_eq : orderItems fold items items' = List.compareLex (order fold) items items' := by
  induction items generalizing items' with
  | nil => cases items' <;> rfl
  | cons item rest ih =>
    cases items' with
    | nil => rfl
    | cons item' rest' => rw [orderItems, List.compareLex_cons_cons, ih]

/-- Without regard to case, strings are ordered by their letters. -/
theorem order_string_true : order true (.string s) (.string t) = compare (letters true s) (letters true t) := by
  simp [order, Comparison.ignoreAsciiCase_eq, letters, Text.folded]

theorem order_string_false : order false (.string s) (.string t) = compare s t := by
  simp [order]

theorem order_array : order fold (.array items) (.array items') = List.compareLex (order fold) items items' := by
  rw [order, orderItems_eq]

end Parts

/-! ## Swapping -/

/-- Turning a comparison of values around turns its answer around. -/
theorem order_swap (fold : Bool) (a b : Json) : order fold b a = (order fold a b).swap := by
  induction a, b using sideBySide with
  | apart a b ranks =>
    rw [order_of_rank_ne ranks, order_of_rank_ne (Ne.symm ranks)]
    exact Std.OrientedOrd.eq_swap
  | null => rfl
  | bool x y => exact Std.OrientedOrd.eq_swap
  | number m n => exact Number.compare_swap m n
  | string s t =>
    cases fold with
    | false =>
      rw [order_string_false, order_string_false]
      exact Std.OrientedOrd.eq_swap
    | true =>
      rw [order_string_true, order_string_true]
      exact Std.OrientedOrd.eq_swap
  | array as bs ih =>
    rw [order, order]
    induction as generalizing bs with
    | nil => cases bs <;> rfl
    | cons x as ihItems =>
      cases bs with
      | nil => rfl
      | cons y bs =>
        have heads := ih x List.mem_cons_self y List.mem_cons_self
        have rests : orderItems fold bs as = (orderItems fold as bs).swap := by
          apply ihItems
          intro x xIn y yIn
          exact ih x (List.mem_cons_of_mem _ xIn) y (List.mem_cons_of_mem _ yIn)
        rw [orderItems, orderItems, Ordering.swap_then, heads, rests]
  | object as bs _ =>
    rw [order, order]
    exact Std.OrientedOrd.eq_swap

/-! ## Passing on -/

variable {I : Int → Prop}

/-- Values of different types are passed by type. -/
theorem order_trans_of_rank_ne (apart : ¬ (a.rank = b.rank ∧ b.rank = c.rank)) (ab : order fold a b ≠ .gt)
    (bc : order fold b c ≠ .gt) : order fold a c ≠ .gt := by
  have rank_le {v w : Json} (le : order fold v w ≠ .gt) : v.rank ≤ w.rank := by
    by_cases ranks : v.rank = w.rank
    · omega
    · rw [order_of_rank_ne ranks] at le
      have := Nat.compare_ne_gt.1 le
      omega
  have less : a.rank < c.rank := by
    have first := rank_le ab
    have second := rank_le bc
    omega
  rw [order_of_rank_ne (by omega), Nat.compare_eq_lt.2 less]
  decide

theorem totalPreorderOn_order_string (fold : Bool) :
    Comparison.TotalPreorderOn (fun s t : String => order fold (.string s) (.string t)) fun _ => True := by
  cases fold with
  | false =>
    simp only [order_string_false]
    exact Comparison.totalPreorderOn_of_transCmp fun _ => True
  | true =>
    simp only [order_string_true]
    have bytes : Comparison.TotalPreorderOn (compare : Comparison (List UInt8)) fun _ => True :=
      Comparison.totalPreorderOn_of_transCmp fun _ => True
    exact bytes.comap (letters true)

/-- Up to any size, values are totally preordered: items of an array are smaller than it. -/
theorem totalPreorderOn_order_of_sizeOf_lt (fold : Bool) (faithful : Number.Faithful I) (size : Nat) :
    Comparison.TotalPreorderOn (order fold) fun v => v.Over I ∧ sizeOf v < size := by
  induction size with
  | zero => exact ⟨fun a b _ _ => order_swap fold a b, fun a b c ⟨_, small⟩ => absurd small (Nat.not_lt_zero _)⟩
  | succ size ih =>
    refine ⟨fun a b _ _ => order_swap fold a b, ?_⟩
    rintro a b c ⟨aOver, aSmall⟩ ⟨bOver, bSmall⟩ ⟨cOver, cSmall⟩ ab bc
    by_cases ranks : a.rank = b.rank ∧ b.rank = c.rank
    · obtain ⟨first, second⟩ := ranks
      cases a with
      | null =>
        cases b <;> cases first
        exact bc
      | bool x =>
        cases b <;> cases first
        cases c <;> cases second
        have bools : Comparison.TotalPreorderOn (compare : Comparison Bool) fun _ => True :=
          Comparison.totalPreorderOn_of_transCmp fun _ => True
        exact bools.trans x _ _ trivial trivial trivial ab bc
      | number l =>
        cases b <;> cases first
        cases c <;> cases second
        exact (Number.totalPreorderOn_compare faithful).trans l _ _ aOver.number bOver.number cOver.number ab bc
      | string s =>
        cases b <;> cases first
        cases c <;> cases second
        exact (totalPreorderOn_order_string fold).trans s _ _ trivial trivial trivial ab bc
      | array as =>
        cases b <;> cases first
        cases c <;> cases second
        rw [order_array] at ab bc ⊢
        have inside {items : List Json} (covered : (Json.array items).Over I)
            (small : sizeOf (Json.array items) < size + 1) : ∀ v ∈ items, v.Over I ∧ sizeOf v < size := by
          intro v member
          have smaller := List.sizeOf_lt_of_mem member
          refine ⟨covered.item v member, ?_⟩
          simp at small
          omega
        exact ih.lists.trans as _ _ (inside aOver aSmall) (inside bOver bSmall) (inside cOver cSmall) ab bc
      | object as =>
        cases b <;> cases first
        cases c <;> cases second
        have texts : Comparison.TotalPreorderOn (compare : Comparison (List Char)) fun _ => True :=
          Comparison.totalPreorderOn_of_transCmp fun _ => True
        rw [order] at ab bc ⊢
        exact texts.trans _ _ _ trivial trivial trivial ab bc
    · exact order_trans_of_rank_ne ranks ab bc

/-- Values are totally preordered where no two different integers become one number. -/
theorem totalPreorderOn_order (fold : Bool) (faithful : Number.Faithful I) :
    Comparison.TotalPreorderOn (order fold) (Over I) where
  swap a b _ _ := order_swap fold a b
  trans a b c aOver bOver cOver := by
    have bounded := totalPreorderOn_order_of_sizeOf_lt fold faithful (sizeOf a + sizeOf b + sizeOf c + 1)
    exact bounded.trans a b c ⟨aOver, by omega⟩ ⟨bOver, by omega⟩ ⟨cOver, by omega⟩

end Collate.Json
