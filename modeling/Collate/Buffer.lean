import Collate.Error
import Collate.Source

/-!
# Buffers

A buffer takes a source once and keeps its elements in order. A source that says its exact
length gets exactly that many slots. For any other the buffer takes a seed of slots with
the first element and doubles them whenever they are full.
-/

set_option autoImplicit false

namespace Collate

/-- Elements kept in order, with the slots allocated for them. -/
structure Buffer (α : Type) where
  items : Array α
  capacity : Nat
  deriving Repr

namespace Buffer

variable {α : Type}

def empty : Buffer α := ⟨#[], 0⟩

/-- The slots after making room for one more element. -/
def roomFor (seed : Nat) (size capacity : Nat) : Nat :=
  if size = capacity then
    if capacity = 0 then max seed 1 else capacity + capacity
  else capacity

/-- A buffer with one more element behind the others. -/
def push (seed : Nat) (b : Buffer α) (x : α) : Buffer α :=
  ⟨b.items.push x, roomFor seed b.items.size b.capacity⟩

/-- A source's elements, in slots that start from `seed` when the source hides its length. -/
def ofSource (seed : Nat) (source : Source α) : Buffer α :=
  match source.hint.exact? with
  | some n => ⟨source.rest.toArray, n⟩
  | none => source.rest.foldl (push seed) empty

def size (b : Buffer α) : Nat := b.items.size

def isEmpty (b : Buffer α) : Bool := b.items.isEmpty

def get? (b : Buffer α) (i : Nat) : Option α := b.items[i]?

/-- The element at a position that the caller takes to be in range. -/
def get (b : Buffer α) (i : Nat) : Except OutOfRange α :=
  match b.items[i]? with
  | some x => .ok x
  | none => .error ⟨b.items.size, i⟩

def toList (b : Buffer α) : List α := b.items.toList

@[simp] theorem toList_empty : (empty : Buffer α).toList = [] := rfl

@[simp] theorem toList_push (seed : Nat) (b : Buffer α) (x : α) :
    (b.push seed x).toList = b.toList ++ [x] := by
  simp [push, toList]

theorem toList_foldl_push (seed : Nat) (items : List α) (b : Buffer α) :
    (items.foldl (push seed) b).toList = b.toList ++ items := by
  induction items generalizing b with
  | nil => simp
  | cons x items ih => rw [List.foldl_cons, ih, toList_push, List.append_assoc, List.singleton_append]

/-- A buffer holds the elements of its source, whether or not the source says how many they are. -/
@[simp] theorem toList_ofSource (seed : Nat) (source : Source α) :
    (ofSource seed source).toList = source.rest := by
  unfold ofSource
  split
  · simp [toList]
  · rw [toList_foldl_push, toList_empty, List.nil_append]

@[simp] theorem items_ofSource (seed : Nat) (source : Source α) :
    (ofSource seed source).items = source.rest.toArray := by
  rw [← toList_ofSource seed source, toList, Array.toArray_toList]

end Buffer

end Collate
