import Collate.Json.Comparer

/-!
# The order of JSON values

Every value ties with itself, whatever numbers it holds. This is all that a sort asks of a
comparison to give each element once.
-/

set_option autoImplicit false

namespace Collate

theorem Floating.compare_self {f : Format} (x : Floating f) : x.compare x = .eq := by
  unfold Floating.compare
  cases x.isNaN with
  | true => rfl
  | false => exact Std.ReflOrd.compare_self

theorem Number.compare_self (n : Number) : n.compare n = .eq := by
  cases n with
  | int a => exact Std.ReflOrd.compare_self
  | float x => exact Floating.compare_self _

theorem Comparison.foldedBytes_self (bytes : List UInt8) : foldedBytes bytes bytes = .eq := by
  induction bytes with
  | nil => rfl
  | cons b bytes ih => rw [foldedBytes, Std.ReflOrd.compare_self, Ordering.eq_then, ih]

namespace Json

mutual
/-- Every value ties with itself. -/
theorem order_self (fold : Bool) : (v : Json) → order fold v v = .eq
  | .null => rfl
  | .bool b => by rw [order, Std.ReflOrd.compare_self]
  | .number n => n.compare_self
  | .string s => by
      rw [order]
      split
      · exact Comparison.foldedBytes_self _
      · exact Std.ReflOrd.compare_self
  | .array items => by rw [order, orderItems_self fold items]
  | .object _ => by rw [order, Std.ReflOrd.compare_self]
/-- Every list of items ties with itself. -/
theorem orderItems_self (fold : Bool) : (items : List Json) → orderItems fold items items = .eq
  | [] => rfl
  | item :: rest => by rw [orderItems, order_self fold item, Ordering.eq_then, orderItems_self fold rest]
end

end Json

end Collate
