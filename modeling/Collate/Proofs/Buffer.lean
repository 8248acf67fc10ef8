import Collate.Buffer
import Mathlib.Algebra.Group.Nat.Defs
import Mathlib.Order.Bounds.Basic

/-!
# How many slots a buffer takes

A buffer doubles its slots whenever an element finds none free. So its slots follow from the seed and
the number of elements alone: the seed, doubled as often as it takes to have a slot for every element
and no more often than that. A source that says its length is given its slots at once.
-/

set_option autoImplicit false

namespace Collate.Buffer

variable {α : Type} {seed : Nat} {b : Buffer α}

/-- The slots of a seed that has been doubled so many times; without a seed they start from one. -/
def grownSlots (seed doublings : Nat) : Nat := max seed 1 * 2 ^ doublings

theorem grownSlots_zero (seed : Nat) : grownSlots seed 0 = max seed 1 := Nat.mul_one _

theorem grownSlots_succ (seed doublings : Nat) :
    grownSlots seed (doublings + 1) = 2 * grownSlots seed doublings := by
  rw [grownSlots, grownSlots, Nat.pow_succ', Nat.mul_left_comm]

theorem grownSlots_pos (seed doublings : Nat) : 0 < grownSlots seed doublings :=
  Nat.mul_pos (Nat.lt_of_lt_of_le Nat.one_pos (Nat.le_max_right ..)) (Nat.two_pow_pos doublings)

theorem grownSlots_mono (seed : Nat) : Monotone (grownSlots seed) :=
  monotone_nat_of_le_succ fun doublings => by
    rw [grownSlots_succ]
    omega

/-- A buffer has the slots that its elements need: none before the first element, then the seed,
doubled as few times as give every element a slot. -/
inductive Grown (seed : Nat) (b : Buffer α) : Prop
  | bare (none : b.size = 0) (slots : b.capacity = 0)
  | doubled (doublings : Nat) (some : 0 < b.size) (slots : b.capacity = grownSlots seed doublings)
      (enough : b.size ≤ grownSlots seed doublings) (fewest : ∀ d, b.size ≤ grownSlots seed d → doublings ≤ d)

theorem grown_empty (seed : Nat) : (empty : Buffer α).Grown seed := .bare rfl rfl

/-- One more element doubles the slots if it finds none free. -/
theorem Grown.push (grown : b.Grown seed) (x : α) : (b.push seed x).Grown seed := by
  have size : (b.push seed x).size = b.size + 1 := Array.size_push x
  have slots : (b.push seed x).capacity = roomFor seed b.size b.capacity := rfl
  cases grown with
  | bare none bare =>
    have one := grownSlots_pos seed 0
    refine .doubled 0 (by omega) ?_ (by omega) (fun _ _ => Nat.zero_le _)
    rw [slots, roomFor, if_pos (none.trans bare.symm), if_pos bare, grownSlots_zero]
  | doubled doublings some same enough fewest =>
    have next := grownSlots_succ seed doublings
    by_cases full : b.size = b.capacity
    · -- every slot has its element, so with any fewer doublings there would be too few for one more
      refine .doubled (doublings + 1) (by omega) ?_ (by omega) ?_
      · rw [slots, roomFor, if_pos full, if_neg (by omega)]
        omega
      · intro d fits
        by_contra fewer
        have below := grownSlots_mono seed (show d ≤ doublings by omega)
        omega
    · refine .doubled doublings (by omega) ?_ (by omega) ?_
      · rw [slots, roomFor, if_neg full, same]
      · intro d fits
        exact fewest d (by omega)

end Collate.Buffer
