import Collate.Comparer.Equality

/-!
# Equality comparers on the keys that occur

A lookup asks less of an equality comparer than that it is an equivalence: that its test is
reflexive and symmetric and its hash the same for equal keys, on the keys that occur. One that is
an equivalence on these keys does there what some equality does that is lawful everywhere.
-/

set_option autoImplicit false

namespace Collate.Equality

variable {K : Type} {e : Equality K} {S : K → Prop} {a b : K}

/-- On the keys of which `S` holds, `equals` is reflexive and symmetric and `hash` respects it. -/
structure ToleranceOn (e : Equality K) (S : K → Prop) : Prop where
  refl : ∀ a, S a → e.equals a a = true
  symm : ∀ a b, S a → S b → e.equals a b = true → e.equals b a = true
  hash_eq : ∀ a b, S a → S b → e.equals a b = true → e.hash a = e.hash b

/-- A tolerance that is transitive on the keys of which `S` holds. -/
structure LawfulOn (e : Equality K) (S : K → Prop) : Prop extends ToleranceOn e S where
  trans : ∀ a b c, S a → S b → S c → e.equals a b = true → e.equals b c = true → e.equals a c = true

theorem Lawful.lawfulOn (laws : e.Lawful) (S : K → Prop) : e.LawfulOn S where
  refl a _ := laws.refl a
  symm a b _ _ := laws.symm a b
  hash_eq a b _ _ := laws.hash_eq a b
  trans a b c _ _ _ := laws.trans a b c

/-- An equality of keys that may be absent is lawful if that of the present ones is, even where a
present key has the hash of the absent one. -/
theorem Lawful.nullable (laws : e.Lawful) : e.nullable.Lawful where
  refl a := by
    cases a with
    | none => rfl
    | some a => exact laws.refl a
  symm a b ab := by
    cases a <;> cases b
    · rfl
    · cases ab
    · cases ab
    · exact laws.symm _ _ ab
  trans a b c ab bc := by
    cases a <;> cases b
    · exact bc
    · cases ab
    · cases ab
    · cases c
      · cases bc
      · exact laws.trans _ _ _ ab bc
  hash_eq a b ab := by
    cases a <;> cases b
    · rfl
    · cases ab
    · cases ab
    · exact laws.hash_eq _ _ ab

theorem ToleranceOn.storedHash_eq (laws : e.ToleranceOn S) (sa : S a) (sb : S b)
    (same : e.equals a b = true) : e.storedHash a = e.storedHash b := by
  simp [storedHash, laws.hash_eq a b sa sb same]

theorem ToleranceOn.equals_comm (laws : e.ToleranceOn S) (sa : S a) (sb : S b) :
    e.equals a b = e.equals b a := by
  rw [Bool.eq_iff_iff]
  exact ⟨laws.symm a b sa sb, laws.symm b a sb sa⟩

/-- Two equalities do the same with the keys of which `S` holds. -/
structure AgreeOn (e e' : Equality K) (S : K → Prop) : Prop where
  equals : ∀ a b, S a → S b → e'.equals a b = e.equals a b
  hash : ∀ a, S a → e'.hash a = e.hash a

theorem AgreeOn.storedHash_eq {e' : Equality K} (agree : e.AgreeOn e' S) (sa : S a) :
    e'.storedHash a = e.storedHash a := by
  rw [storedHash, storedHash, agree.hash a sa]

/-- What is lawful on some keys agrees there with an equality that is lawful on all. -/
theorem LawfulOn.exists_lawful (laws : e.LawfulOn S) : ∃ e', e'.Lawful ∧ e.AgreeOn e' S := by
  classical
  -- the other keys are equal to themselves only
  let e' : Equality K := ⟨fun a b => decide (a = b ∨ S a ∧ S b ∧ e.equals a b = true), e.hash⟩
  have equals_iff (a b : K) : e'.equals a b = true ↔ a = b ∨ S a ∧ S b ∧ e.equals a b = true :=
    decide_eq_true_iff
  refine ⟨e', ⟨?_, ?_, ?_, ?_⟩, ?_, fun _ _ => rfl⟩
  · intro a
    exact (equals_iff a a).2 (Or.inl rfl)
  · intro a b
    rw [equals_iff, equals_iff]
    rintro (rfl | ⟨sa, sb, ab⟩)
    · exact Or.inl rfl
    · exact Or.inr ⟨sb, sa, laws.symm a b sa sb ab⟩
  · intro a b c
    rw [equals_iff, equals_iff, equals_iff]
    rintro (rfl | ⟨sa, sb, ab⟩) (rfl | ⟨sb', sc, bc⟩)
    · exact Or.inl rfl
    · exact Or.inr ⟨sb', sc, bc⟩
    · exact Or.inr ⟨sa, sb, ab⟩
    · exact Or.inr ⟨sa, sc, laws.trans a b c sa sb sc ab bc⟩
  · intro a b
    rw [equals_iff]
    rintro (rfl | ⟨sa, sb, ab⟩)
    · rfl
    · exact laws.hash_eq a b sa sb ab
  · intro a b sa sb
    rw [Bool.eq_iff_iff, equals_iff]
    constructor
    · rintro (rfl | ⟨-, -, ab⟩)
      · exact laws.refl a sa
      · exact ab
    · intro ab
      exact Or.inr ⟨sa, sb, ab⟩

end Collate.Equality
