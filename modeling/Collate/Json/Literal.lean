import Collate.Json.Numeral

/-!
# JSON as written

A `Literal` is a JSON text taken apart but not yet understood: escapes of strings are kept
as code units, numbers as their digits, and fields as they come. Its `value?` is the value
it stands for. That can fail where taking the text apart does not: code units may not pair
up, a number may be too large for the 64-bit format, and containers may nest too deep.
-/

set_option autoImplicit false

namespace Collate.Json

/-- A part of a string: a character, or an escaped 16-bit unit. -/
inductive Piece where
  | char (value : Char)
  | unit (value : Nat)
  deriving DecidableEq, Repr

/-- A JSON text taken apart. -/
inductive Literal where
  | null
  | bool (value : Bool)
  | number (digits : Numeral)
  | string (pieces : List Piece)
  | array (items : List Literal)
  | object (fields : List (List Piece × Literal))

/-- The characters of a string; escaped units beyond one unit's range come in pairs. -/
def characters? : List Piece → Option (List Char)
  | [] => some []
  | .char c :: rest => (characters? rest).map (c :: ·)
  | .unit u :: .unit v :: rest =>
      if 0xD800 ≤ u && u ≤ 0xDBFF then
        if 0xDC00 ≤ v && v ≤ 0xDFFF then
          (characters? rest).map (Char.ofNat (0x10000 + (u - 0xD800) * 0x400 + (v - 0xDC00)) :: ·)
        else none
      else if 0xDC00 ≤ u && u ≤ 0xDFFF then none
      else (characters? (.unit v :: rest)).map (Char.ofNat u :: ·)
  | .unit u :: rest =>
      if 0xD800 ≤ u && u ≤ 0xDFFF then none else (characters? rest).map (Char.ofNat u :: ·)

/-- The text of a string. -/
def string? (pieces : List Piece) : Option String :=
  (characters? pieces).map String.ofList

/-- How deep containers may nest. -/
def depthLimit : Nat := 127

namespace Literal

mutual
/-- The value of a literal, with room for so many more containers inside one another. -/
def valueIn? (room : Nat) : Literal → Option Json
  | .null => some .null
  | .bool b => some (.bool b)
  | .number n => n.number?.map .number
  | .string pieces => (string? pieces).map .string
  | .array items => if room = 0 then none else (itemsIn? (room - 1) items).map .array
  | .object fields => if room = 0 then none else (fieldsIn? (room - 1) fields).map ofFields
/-- The values of the items of an array. -/
def itemsIn? (room : Nat) : List Literal → Option (List Json)
  | [] => some []
  | item :: rest =>
      match valueIn? room item, itemsIn? room rest with
      | some v, some vs => some (v :: vs)
      | _, _ => none
/-- The names and values of the fields of an object. -/
def fieldsIn? (room : Nat) : List (List Piece × Literal) → Option (List (String × Json))
  | [] => some []
  | (name, value) :: rest =>
      match string? name, valueIn? room value, fieldsIn? room rest with
      | some k, some v, some fs => some ((k, v) :: fs)
      | _, _, _ => none
end

/-- The value of a literal. -/
def value? (l : Literal) : Option Json := l.valueIn? depthLimit

end Literal

end Collate.Json
