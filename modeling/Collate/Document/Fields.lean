import Collate.Document.Basic

/-!
# Fields of a record in a document

A record with known fields is written as a mapping from their names, or as a sequence of
their values in order. Either way it is brought into one row: for each field in order the
document given for it, if one is. A field given twice, or a sequence that is too long, is
refused.
-/

set_option autoImplicit false

namespace Collate.Document

/-- How the keys of a mapping name fields. -/
structure KeyRule where
  /-- A number names the field at its place, and no other scalar but text is a key. -/
  numbered : Bool
  /-- A key that names no field is refused rather than passed over. -/
  closed : Bool

/-- Only text names fields; other scalars are keys of fields not known. -/
def KeyRule.plain : KeyRule := ⟨false, false⟩

/-- Only text names fields, and every key must name one. -/
def KeyRule.strict : KeyRule := ⟨false, true⟩

/-- Text and numbers name fields. -/
def KeyRule.byPlace : KeyRule := ⟨true, false⟩

/-- What a key says: nothing it may say, a field not known, or the place of a known one. -/
inductive KeyReading where
  | refused
  | unknown
  | field (place : Nat)

/-- What a key says about the fields with the given names. -/
def readKey (rule : KeyRule) (names : List String) (key : Document) : KeyReading :=
  let reading : KeyReading :=
    match key with
    | .text s =>
        match names.idxOf? s with
        | some place => .field place
        | none => .unknown
    | .integer n =>
        if !rule.numbered then .unknown
        else if n < 0 then .refused
        else if n.toNat < names.length then .field n.toNat
        else .unknown
    | .null | .bool _ | .real => if rule.numbered then .refused else .unknown
    | .sequence _ | .mapping _ | .unreadable => .refused
  match reading with
  | .unknown => if rule.closed then .refused else .unknown
  | other => other

/-- A row of fields, each with the document given for it, if one is. -/
abbrev Row := List (Option Document)

/-- A document put into a row for a field that has none yet. -/
def Row.put? (row : Row) (place : Nat) (value : Document) : Option Row :=
  match row[place]? with
  | some none => some (row.set place (some value))
  | _ => none

/-- The row of a mapping's entries. -/
def rowOfEntries? (rule : KeyRule) (names : List String) (entries : List (Document × Document)) :
    Option Row :=
  entries.foldlM
    (fun row entry =>
      match readKey rule names entry.1 with
      | .refused => none
      | .unknown => some row
      | .field place => row.put? place entry.2)
    (names.map fun _ => none)

/-- The row of a sequence's items. -/
def rowOfItems? (names : List String) (items : List Document) : Option Row :=
  if items.length ≤ names.length then
    some (items.map some ++ List.replicate (names.length - items.length) none)
  else none

/-- The value of a field that must be text. -/
def text? : Option Document → Option String
  | some (.text s) => some s
  | _ => none

/-- The value of a field that may be text, or null, or left out. -/
def optionalText? : Option Document → Option (Option String)
  | none => some none
  | some .null => some none
  | some (.text s) => some (some s)
  | _ => none

/-- The value of a field that may be a truth value, or left out for false. -/
def flag? : Option Document → Option Bool
  | none => some false
  | some (.bool b) => some b
  | _ => none

/-- A document that is a machine word. -/
def word? : Document → Option Nat
  | .integer n => if 0 ≤ n && n ≤ Text.wordMax then some n.toNat else none
  | _ => none

/-- The value of a field that may be a machine word, or null, or left out. -/
def optionalWord? : Option Document → Option (Option Nat)
  | none => some none
  | some .null => some none
  | some d => (word? d).map some

end Collate.Document
