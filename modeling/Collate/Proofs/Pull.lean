import Collate.Pull

/-!
# What pulls give

What a state gives is the list of the results of its pulls, up to the first pull without one
(`Pull.Yields`). A view of the state that loses its head with each pull is this list.
-/

set_option autoImplicit false

namespace Collate.Pull

variable {S R : Type} {pull : S → Option R × S}

/-- Pulled until nothing comes, a state gives exactly these results. -/
inductive Yields (pull : S → Option R × S) : S → List R → Prop where
  | ended {s next : S} (nothing : pull s = (none, next)) : Yields pull s []
  | given {s next : S} {r : R} {rs : List R} (first : pull s = (some r, next))
      (rest : Yields pull next rs) : Yields pull s (r :: rs)

/-- With room for all of them, the results are collected. -/
theorem Yields.collect_eq {s : S} {rs : List R} (yields : Yields pull s rs) {room : Nat}
    (enough : rs.length ≤ room) : collect pull room s = rs := by
  induction yields generalizing room with
  | ended nothing => cases room <;> simp [collect, nothing]
  | given first _ ih =>
    cases room with
    | zero => simp at enough
    | succ room =>
      have rest := ih (Nat.le_of_succ_le_succ enough)
      simp [collect, first, rest]

/-- A view of the state that loses its head with each pull is what the state gives. -/
theorem yields_view (view : S → List R) (ended : ∀ s, view s = [] → (pull s).1 = none)
    (given : ∀ s r rs, view s = r :: rs → (pull s).1 = some r ∧ view (pull s).2 = rs) (s : S) :
    Yields pull s (view s) := by
  generalize seen : view s = rs
  induction rs generalizing s with
  | nil => exact .ended (Prod.ext (ended s seen) rfl)
  | cons r rs ih =>
    obtain ⟨first, rest⟩ := given s r rs seen
    exact .given (Prod.ext first rfl) (ih _ rest)

theorem after_succ (pull : S → Option R × S) (pulls : Nat) (s : S) :
    after pull (pulls + 1) s = (pull (after pull pulls s)).2 := by
  induction pulls generalizing s with
  | zero => rfl
  | succ pulls ih => exact ih (pull s).2

end Collate.Pull
