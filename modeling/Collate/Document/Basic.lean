import Collate.Json.Reader
import Collate.Text.Numeral

/-!
# Documents

Queries and configurations are decoded from documents: trees of scalars, sequences and
mappings that keep repeated keys and the order in which entries were written. A part that
can be passed over but not understood is `unreadable`; it matters only where it is looked
at.
-/

set_option autoImplicit false

namespace Collate

/-- A tree of scalars, sequences and mappings. -/
inductive Document where
  | null
  | bool (value : Bool)
  /-- An integer of any size. -/
  | integer (value : Int)
  /-- A number that is not written as an integer. -/
  | real
  | text (value : String)
  | sequence (items : List Document)
  | mapping (entries : List (Document × Document))
  /-- A part without a value. -/
  | unreadable

namespace Document

/-- A machine word holds the integer, signed or not. -/
def fitsWord (n : Int) : Bool := -0x8000000000000000 ≤ n && n ≤ Text.wordMax

mutual
/-- Everything in a document has a value that can be kept. -/
def readable : Document → Bool
  | .integer n => fitsWord n
  | .sequence items => readableItems items
  | .mapping entries => readableEntries entries
  | .unreadable => false
  | _ => true
/-- `readable` for each of some items. -/
def readableItems : List Document → Bool
  | [] => true
  | item :: rest => readable item && readableItems rest
/-- `readable` for each key and value of some entries. -/
def readableEntries : List (Document × Document) → Bool
  | [] => true
  | (key, value) :: rest => readable key && readable value && readableEntries rest
end

/-- The document of a JSON string. -/
def ofPieces (pieces : List Json.Piece) : Document :=
  match Json.string? pieces with
  | some s => .text s
  | none => .unreadable

/-- The document of a JSON number. -/
def ofNumeral (n : Json.Numeral) : Document :=
  match n.number? with
  | some (.int i) => .integer i
  | some (.float _) => .real
  | none => .unreadable

mutual
/-- The document of a JSON text taken apart; what nests too deep is unreadable. -/
def ofLiteral (room : Nat) : Json.Literal → Document
  | .null => .null
  | .bool b => .bool b
  | .number n => ofNumeral n
  | .string pieces => ofPieces pieces
  | .array items => if room = 0 then .unreadable else .sequence (ofItems (room - 1) items)
  | .object fields => if room = 0 then .unreadable else .mapping (ofFields (room - 1) fields)
/-- The documents of the items of an array. -/
def ofItems (room : Nat) : List Json.Literal → List Document
  | [] => []
  | item :: rest => ofLiteral room item :: ofItems room rest
/-- The documents of the fields of an object. -/
def ofFields (room : Nat) : List (List Json.Piece × Json.Literal) → List (Document × Document)
  | [] => []
  | (name, value) :: rest => (ofPieces name, ofLiteral room value) :: ofFields room rest
end

/-- The document of a JSON text. -/
def ofJson? (source : String) : Option Document :=
  (Json.literal? source.toList).map (ofLiteral Json.depthLimit)

end Document

end Collate
