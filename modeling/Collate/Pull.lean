/-!
# Pulled sequences

An operator that gives its results one at a time is a state with a pull: a result if there
is one, and the next state. `collect` pulls until the first pull without a result.
-/

set_option autoImplicit false

namespace Collate.Pull

variable {S R : Type}

/-- The results of at most so many pulls, up to the first that gives none. -/
def collect (pull : S → Option R × S) : (room : Nat) → S → List R
  | 0, _ => []
  | room + 1, s =>
      match pull s with
      | (none, _) => []
      | (some r, s) => r :: collect pull room s

/-- The state after so many pulls. -/
def after (pull : S → Option R × S) : (pulls : Nat) → S → S
  | 0, s => s
  | pulls + 1, s => after pull pulls (pull s).2

/-- The result collected at a place is that of the pull after so many others. -/
theorem getElem?_collect (pull : S → Option R × S) (room k : Nat) (s : S)
    (bound : k < (collect pull room s).length) :
    (collect pull room s)[k]? = (pull (after pull k s)).1 := by
  induction room generalizing s k with
  | zero => simp [collect] at bound
  | succ room ih =>
    unfold collect at bound ⊢
    split at bound
    · simp at bound
    · next r rest pulled =>
      cases k with
      | zero => simp [after, pulled]
      | succ k =>
        rw [List.length_cons] at bound
        rw [List.getElem?_cons_succ, ih k rest (by omega), after, pulled]

end Collate.Pull
