/-!
# The bytes of a text

A text is hashed and compared without regard to ASCII case through its UTF-8 bytes.
-/

set_option autoImplicit false

namespace Collate.Text

/-- The UTF-8 bytes of a text. -/
def utf8 (s : String) : List UInt8 :=
  s.toByteArray.data.toList

/-- An ASCII capital as its small letter; every other byte as it is. -/
def lowerByte (b : UInt8) : UInt8 :=
  if 65 ≤ b && b ≤ 90 then b + 32 else b

/-- Texts are equal exactly when their bytes are. -/
theorem utf8_inj {s t : String} : utf8 s = utf8 t ↔ s = t := by
  constructor
  · intro h
    apply String.toByteArray_inj.1
    apply ByteArray.ext
    exact Array.toList_inj.1 h
  · rintro rfl
    rfl

end Collate.Text
