import Collate.Comparer.Equality
import Collate.Proofs.Comparer.Preorder

/-!
# Texts without regard to case

Equality, order and hash each go through the bytes of a text on their own. What all three see of it
are its bytes with ASCII capitals made small, so texts that are equal tie and are hashed alike, and
the other way round.
-/

set_option autoImplicit false

namespace Collate

variable {xs ys : List UInt8} {s t : String}

/-- The bytes of a text with ASCII capitals made small. -/
def Text.folded (s : String) : List UInt8 := (Text.utf8 s).map Text.lowerByte

namespace Equality

theorem foldedBytes_iff : foldedBytes xs ys = true ↔ xs.map Text.lowerByte = ys.map Text.lowerByte := by
  induction xs generalizing ys with
  | nil => cases ys <;> simp [foldedBytes]
  | cons x xs ih => cases ys <;> simp [foldedBytes, ih]

theorem ignoreAsciiCase_iff : ignoreAsciiCase.equals s t = true ↔ Text.folded s = Text.folded t :=
  foldedBytes_iff

theorem ofFoldedText_eq_iff : Write.ofFoldedText s = Write.ofFoldedText t ↔ Text.folded s = Text.folded t := by
  have writes (u : String) : Write.ofFoldedText u = (Text.folded u).map Write.byte := by
    simp [Write.ofFoldedText, Text.folded]
  rw [writes, writes, List.map_inj_right fun _ _ => Write.byte.inj]

theorem lawful_ignoreAsciiCase : ignoreAsciiCase.Lawful where
  refl _ := ignoreAsciiCase_iff.2 rfl
  symm _ _ ab := ignoreAsciiCase_iff.2 (ignoreAsciiCase_iff.1 ab).symm
  trans _ _ _ ab bc := ignoreAsciiCase_iff.2 ((ignoreAsciiCase_iff.1 ab).trans (ignoreAsciiCase_iff.1 bc))
  hash_eq _ _ ab := congrArg digest (ofFoldedText_eq_iff.2 (ignoreAsciiCase_iff.1 ab))

end Equality

namespace Comparison

theorem foldedBytes_eq : foldedBytes xs ys = compare (xs.map Text.lowerByte) (ys.map Text.lowerByte) := by
  induction xs generalizing ys with
  | nil => cases ys <;> rfl
  | cons x xs ih =>
    cases ys with
    | nil => rfl
    | cons y ys =>
      rw [foldedBytes, ih]
      exact List.compareLex_cons_cons.symm

theorem ignoreAsciiCase_eq (s t : String) : ignoreAsciiCase s t = compare (Text.folded s) (Text.folded t) :=
  foldedBytes_eq

theorem totalPreorderOn_ignoreAsciiCase : ignoreAsciiCase.TotalPreorderOn fun _ => True := by
  have bytes : Comparison.TotalPreorderOn (compare : Comparison (List UInt8)) fun _ => True :=
    totalPreorderOn_of_transCmp fun _ => True
  have laws := bytes.comap Text.folded
  simpa only [← ignoreAsciiCase_eq] using laws

/-- Texts tie exactly if they are equal. -/
theorem ignoreAsciiCase_eq_iff : ignoreAsciiCase s t = .eq ↔ Equality.ignoreAsciiCase.equals s t = true := by
  rw [ignoreAsciiCase_eq, Equality.ignoreAsciiCase_iff, Std.LawfulEqOrd.compare_eq_iff_eq]

end Comparison

end Collate
