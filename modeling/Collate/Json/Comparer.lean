import Collate.Comparer.Equality
import Collate.Comparer.Order
import Collate.Json.Printer

/-!
# Comparing JSON values

Two integers are compared exactly and any other two numbers as numbers of the 64-bit
format, so `1` and `1.0` are equal. Values of different types are ordered by type. Objects
are equal when they have the same fields with equal values, and ordered by their
texts. With `fold` set, strings are compared without regard to ASCII case.
-/

set_option autoImplicit false

namespace Collate

namespace Number

/-- A number in the 64-bit format, zero made positive. -/
def toDouble : Number → Double
  | .int n => (Floating.ofInt n).normalizeZero
  | .float x => x.normalizeZero

/-- Numbers by value. -/
def compare : Number → Number → Ordering
  | .int a, .int b => Ord.compare a b
  | a, b => a.toDouble.compare b.toDouble

end Number

namespace Json

/-- The place of a value's type: null, bool, number, string, array, object. -/
def rank : Json → Nat
  | .null => 0
  | .bool _ => 1
  | .number _ => 2
  | .string _ => 3
  | .array _ => 4
  | .object _ => 5

mutual
/-- Values are equal: of one type and alike in what they hold. -/
def equals (fold : Bool) : Json → Json → Bool
  | .null, .null => true
  | .bool a, .bool b => a == b
  | .number a, .number b => a.compare b == .eq
  | .string a, .string b => if fold then Equality.ignoreAsciiCase.equals a b else a == b
  | .array as, .array bs => equalsItems fold as bs
  | .object as, .object bs => as.length == bs.length && equalsFields fold as bs
  | _, _ => false
/-- Items are equal one by one, and equally many. -/
def equalsItems (fold : Bool) : List Json → List Json → Bool
  | [], [] => true
  | a :: as, b :: bs => equals fold a b && equalsItems fold as bs
  | _, _ => false
/-- Every field on the left has a field of its name on the right with an equal value. -/
def equalsFields (fold : Bool) : List (String × Json) → List (String × Json) → Bool
  | [], _ => true
  | (name, a) :: as, bs =>
      (match fieldOf? name bs with
        | some b => equals fold a b
        | none => false) && equalsFields fold as bs
end

mutual
/-- The writes that describe a value; of an object only the number of fields counts. -/
def writes (fold : Bool) : Json → List Write
  | .null => [.byte 0]
  | .bool b => [.byte 1, .byte (if b then 1 else 0)]
  | .number n => [.byte 2, .word (UInt64.ofNat n.toDouble.bits)]
  | .string s => .byte 3 :: (if fold then Write.ofFoldedText s else Write.ofText s)
  | .array items => .byte 4 :: .word (UInt64.ofNat items.length) :: writesItems fold items
  | .object fields => [.byte 5, .word (UInt64.ofNat fields.length)]
/-- The writes of the items of an array. -/
def writesItems (fold : Bool) : List Json → List Write
  | [] => []
  | item :: rest => writes fold item ++ writesItems fold rest
end

mutual
/-- Values in order: of one type by what they hold, of different types by type. -/
def order (fold : Bool) : Json → Json → Ordering
  | .bool a, .bool b => compare a b
  | .number a, .number b => a.compare b
  | .string a, .string b => if fold then Comparison.ignoreAsciiCase a b else compare a b
  | .array as, .array bs => orderItems fold as bs
  | .object as, .object bs => compare (text (.object as)) (text (.object bs))
  | a, b => compare a.rank b.rank
/-- Items in order one by one; a list comes before its extensions. -/
def orderItems (fold : Bool) : List Json → List Json → Ordering
  | [], [] => .eq
  | [], _ :: _ => .lt
  | _ :: _, [] => .gt
  | a :: as, b :: bs => (order fold a b).then (orderItems fold as bs)
end

/-- Equality of JSON values with its hash. -/
def equality (fold : Bool) : Equality Json where
  equals := equals fold
  hash v := digest (writes fold v)

end Json

end Collate
