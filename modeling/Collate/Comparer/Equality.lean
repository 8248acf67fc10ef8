import Collate.Digest

/-!
# Equality comparers

An equality comparer is a test for equal keys with a hash. Lookups and joins use both and
assume nothing of them; `Equality.Lawful` is what makes their answers independent of how
a lookup is laid out.
-/

set_option autoImplicit false

namespace Collate

/-- A test for equal keys, with the hash that a lookup files them under. -/
structure Equality (K : Type) where
  equals : K → K → Bool
  hash : K → UInt64

namespace Equality

variable {K : Type}

/-- The 31 low bits of the hash, which a lookup keeps with a group. -/
def storedHash (e : Equality K) (key : K) : Nat :=
  (e.hash key).toNat % 0x80000000

/-- `equals` is an equivalence and `hash` respects it. -/
structure Lawful (e : Equality K) : Prop where
  refl : ∀ a, e.equals a a = true
  symm : ∀ a b, e.equals a b = true → e.equals b a = true
  trans : ∀ a b c, e.equals a b = true → e.equals b c = true → e.equals a c = true
  hash_eq : ∀ a b, e.equals a b = true → e.hash a = e.hash b

/-- Equality of the key type itself, hashed through its description by writes. -/
def default [DecidableEq K] [Digestible K] : Equality K where
  equals a b := decide (a = b)
  hash key := digest (Digestible.writes key)

/-- Two byte sequences of one length that differ in ASCII case at most. -/
def foldedBytes : List UInt8 → List UInt8 → Bool
  | [], [] => true
  | a :: as, b :: bs => Text.lowerByte a == Text.lowerByte b && foldedBytes as bs
  | _, _ => false

/-- Texts without regard to ASCII case. -/
def ignoreAsciiCase : Equality String where
  equals a b := foldedBytes (Text.utf8 a) (Text.utf8 b)
  hash key := digest (Write.ofFoldedText key)

/-- An absent key equals only another absent key and hashes to zero. -/
def nullable (e : Equality K) : Equality (Option K) where
  equals
    | none, none => true
    | some a, some b => e.equals a b
    | _, _ => false
  hash
    | none => 0
    | some key => e.hash key

/-- The equality of the key type itself is lawful. -/
theorem lawful_default [DecidableEq K] [Digestible K] : (default : Equality K).Lawful where
  refl a := by simp [default]
  symm a b h := by simp_all [default]
  trans a b c h₁ h₂ := by simp_all [default]
  hash_eq a b h := by
    have : a = b := by simpa [default] using h
    rw [this]

theorem storedHash_lt (e : Equality K) (key : K) : e.storedHash key < 0x80000000 :=
  Nat.mod_lt _ (by decide)

theorem Lawful.storedHash_eq {e : Equality K} (h : e.Lawful) {a b : K} (hab : e.equals a b = true) :
    e.storedHash a = e.storedHash b := by
  simp [storedHash, h.hash_eq a b hab]

end Equality

end Collate
