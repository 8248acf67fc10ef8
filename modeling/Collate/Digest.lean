import Collate.Text.Bytes

/-!
# Digests

A key is hashed by the sequence of writes that describes it. `digest` folds the bytes of
those writes into one word (FNV-1a), so keys that are written alike have equal digests. It stands
for any hasher: nothing that is proved of keys, groups or joins depends on which word comes out, only
on equal writes having one digest.
-/

set_option autoImplicit false

namespace Collate

/-- One write to a digest. -/
inductive Write where
  | byte (value : UInt8)
  | word (value : UInt64)
  deriving DecidableEq, Repr

namespace Write

/-- The bytes of a write; a word is written low byte first. -/
def bytes : Write → List UInt8
  | .byte value => [value]
  | .word value =>
      [value.toUInt8, (value >>> 8).toUInt8, (value >>> 16).toUInt8, (value >>> 24).toUInt8,
        (value >>> 32).toUInt8, (value >>> 40).toUInt8, (value >>> 48).toUInt8,
        (value >>> 56).toUInt8]

/-- A text as writes: its bytes and a byte that no text contains. -/
def ofText (s : String) : List Write :=
  (Text.utf8 s).map .byte ++ [.byte 0xFF]

/-- A text as writes without regard to ASCII case. -/
def ofFoldedText (s : String) : List Write :=
  (Text.utf8 s).map fun b => .byte (Text.lowerByte b)

/-- An integer as the word of its two's complement. -/
def ofInt (n : Int) : Write := .word (UInt64.ofInt n)

end Write

/-- One byte folded into a digest. -/
def absorb (h : UInt64) (b : UInt8) : UInt64 :=
  (h ^^^ b.toUInt64) * 0x100000001B3

/-- The digest of a sequence of writes. -/
def digest (writes : List Write) : UInt64 :=
  writes.foldl (fun h w => w.bytes.foldl absorb h) 0xCBF29CE484222325

/-- Keys that have a description by writes. -/
class Digestible (K : Type) where
  writes : K → List Write

instance : Digestible Int := ⟨fun n => [Write.ofInt n]⟩

instance : Digestible String := ⟨Write.ofText⟩

/-- An absent key is told from a present one by a word in front. -/
instance {K : Type} [Digestible K] : Digestible (Option K) where
  writes
    | none => [.word 0]
    | some key => .word 1 :: Digestible.writes key

end Collate
