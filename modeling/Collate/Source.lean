/-!
# Sources

A source hands out its elements one at a time, once. It may say how many are left, and it
counts how many have been taken, which is how laziness of the operators shows.
-/

set_option autoImplicit false

namespace Collate

/-- Bounds on the number of elements still to come; the upper one may be unknown. -/
structure SizeHint where
  lower : Nat
  upper : Option Nat
  deriving DecidableEq, Repr

/-- Nothing is known about the number of elements. -/
def SizeHint.unknown : SizeHint := ⟨0, none⟩

/-- Exactly this many elements are to come. -/
def SizeHint.exactly (n : Nat) : SizeHint := ⟨n, some n⟩

/-- The one number of elements that a hint allows, if it allows one only. -/
def SizeHint.exact? (hint : SizeHint) : Option Nat :=
  match hint.upper with
  | some upper => if hint.lower = upper then some upper else none
  | none => none

/-- A sequence that can be pulled once. -/
structure Source (α : Type) where
  /-- The elements not yet taken. -/
  rest : List α
  /-- Whether the source says how many are left. -/
  sized : Bool := true
  /-- How many elements have been taken. -/
  taken : Nat := 0
  deriving Repr

namespace Source

variable {α : Type}

def ofList (items : List α) (sized : Bool) : Source α := { rest := items, sized := sized }

def hint (s : Source α) : SizeHint :=
  if s.sized then .exactly s.rest.length else .unknown

/-- The next element, and the source after it. -/
def pull? (s : Source α) : Option (α × Source α) :=
  match s.rest with
  | [] => none
  | x :: rest => some (x, { s with rest := rest, taken := s.taken + 1 })

/-- The source after all its elements have been taken. -/
def drained (s : Source α) : Source α :=
  { s with rest := [], taken := s.taken + s.rest.length }

end Source

end Collate
