import Collate.Buffer
import Collate.Config
import Collate.Pull

/-!
# Reversal

A reversed sequence leaves its source alone until the first pull. That pull takes the whole
source into a buffer, and from then on elements come from the buffer's end.
-/

set_option autoImplicit false

namespace Collate

/-- A source to be given back to front; `pending` until the first pull. -/
structure Reverse (α : Type) where
  source : Source α
  /-- The elements still to come, once the source has been taken. -/
  draining : Option (List α) := none
  deriving Repr

namespace Reverse

variable {α : Type}

def ofSource (source : Source α) : Reverse α := { source := source }

/-- The elements still to come, the source taken if it has not been. -/
def remaining (r : Reverse α) : List α :=
  match r.draining with
  | some rest => rest
  | none => (Buffer.ofSource Config.default.bufferSeed r.source).toList.reverse

/-- The next element if there is one, and the sequence after it. -/
def pull (r : Reverse α) : Option α × Reverse α :=
  match r.remaining with
  | [] => (none, ⟨r.source.drained, some []⟩)
  | x :: rest => (some x, ⟨r.source.drained, some rest⟩)

/-- How many elements have been taken from the source. -/
def taken (r : Reverse α) : Nat := r.source.taken

/-- The length is not told, not even when the source tells its own. -/
def hint (_ : Reverse α) : SizeHint := .unknown

/-- All elements still to come. -/
def toList (r : Reverse α) : List α := Pull.collect pull r.remaining.length r

end Reverse

end Collate
