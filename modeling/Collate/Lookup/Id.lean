/-!
# Group identifiers

A group is known outside of its lookup by a machine word, its place in order of first
occurrence.
-/

set_option autoImplicit false

namespace Collate

/-- The place of a group in its lookup. -/
structure GroupId where
  value : UInt64
  deriving DecidableEq, Repr

namespace GroupId

def ofNat (n : Nat) : GroupId := ⟨UInt64.ofNat n⟩

/-- The place as an index. -/
def index (id : GroupId) : Nat := id.value.toNat

/-- Identifiers are ordered by place. -/
def compare (a b : GroupId) : Ordering := Ord.compare a.value b.value

/-- How an identifier is shown. -/
def display (id : GroupId) : String := "GroupingId(" ++ toString id.index ++ ")"

theorem ofNat_index (id : GroupId) : ofNat id.index = id := by
  simp [ofNat, index]

end GroupId

end Collate
