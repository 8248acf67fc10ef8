/-!
# Blank characters

`isBlank` is the Unicode property `White_Space`. Trimming drops blank characters from the
ends of a text and keeps the ones inside.
-/

set_option autoImplicit false

namespace Collate.Text

/-- Unicode `White_Space`: the ASCII controls and space, and every wider space and line break. -/
def isBlank (c : Char) : Bool :=
  let n := c.toNat
  (0x09 ≤ n && n ≤ 0x0D) || n == 0x20 || n == 0x85 || n == 0xA0 || n == 0x1680 ||
    (0x2000 ≤ n && n ≤ 0x200A) || n == 0x2028 || n == 0x2029 || n == 0x202F || n == 0x205F ||
    n == 0x3000

/-- The characters from the first that is not blank on. -/
def trimStart (cs : List Char) : List Char :=
  cs.dropWhile isBlank

/-- The characters up to the last that is not blank. -/
def trimEnd (cs : List Char) : List Char :=
  (cs.reverse.dropWhile isBlank).reverse

/-- The characters between the first and the last that are not blank. -/
def trim (cs : List Char) : List Char :=
  trimEnd (trimStart cs)

/-- A text without a character that is not blank. -/
def allBlank (cs : List Char) : Bool :=
  cs.all isBlank

theorem trimStart_of_not_isBlank {c : Char} {cs : List Char} (h : isBlank c = false) :
    trimStart (c :: cs) = c :: cs := by
  simp [trimStart, h]

end Collate.Text
