import Collate.Text.Bytes

/-!
# Order comparers

An order comparer says of two keys which comes first. Only its answers matter: the sort
asks no law of it. The stock comparers here are total preorders, and `Direction` turns any
of them around.
-/

set_option autoImplicit false

namespace Collate

/-- How two keys stand to one another. -/
abbrev Comparison (K : Type) := K → K → Ordering

/-- Whether a level of an ordering runs upwards or downwards. -/
inductive Direction where
  | ascending
  | descending
  deriving DecidableEq, Repr, Inhabited

namespace Direction

def ofDescending (descending : Bool) : Direction :=
  if descending then .descending else .ascending

/-- The answer of a comparison as this direction reads it. -/
def apply : Direction → Ordering → Ordering
  | .ascending, o => o
  | .descending, o => o.swap

/-- The other direction. -/
def flip : Direction → Direction
  | .ascending => .descending
  | .descending => .ascending

/-- The name under which a direction is written. -/
def name : Direction → String
  | .ascending => "ascending"
  | .descending => "descending"

/-- The direction with a given name. -/
def ofName? (s : String) : Option Direction :=
  [Direction.ascending, .descending].find? fun d => d.name == s

theorem ofName?_name (d : Direction) : ofName? d.name = some d := by
  cases d <;> rfl

theorem flip_apply (d : Direction) (o : Ordering) : d.flip.apply o = (d.apply o).swap := by
  cases d <;> simp [flip, apply]

@[simp] theorem apply_eq (d : Direction) : d.apply .eq = .eq := by
  cases d <;> rfl

theorem apply_eq_iff {d : Direction} {o : Ordering} : d.apply o = .eq ↔ o = .eq := by
  cases d <;> cases o <;> decide

end Direction

namespace Comparison

/-- The order that the key type itself has. -/
def natural {K : Type} [Ord K] : Comparison K := compare

/-- Bytes one after the other without regard to ASCII case; a text comes before its extensions. -/
def foldedBytes : List UInt8 → List UInt8 → Ordering
  | [], [] => .eq
  | [], _ :: _ => .lt
  | _ :: _, [] => .gt
  | a :: as, b :: bs => (compare (Text.lowerByte a) (Text.lowerByte b)).then (foldedBytes as bs)

/-- Texts without regard to ASCII case. -/
def ignoreAsciiCase : Comparison String :=
  fun a b => foldedBytes (Text.utf8 a) (Text.utf8 b)

/-- An absent key comes before every present one. -/
def nullable {K : Type} (cmp : Comparison K) : Comparison (Option K)
  | none, none => .eq
  | none, some _ => .lt
  | some _, none => .gt
  | some a, some b => cmp a b

end Comparison

end Collate
