import Collate.Text.Numeral
import Collate.Yaml.Cursor

/-!
# Tags

A tag says what a node is. It is written whole between angle brackets, or behind a handle that
stands for its beginning; what a handle stands for is declared in front of a document, or
known. The octets of a tag are written as characters, or in hexadecimal behind percent signs.
Four tags name kinds of scalars; one that begins with an exclamation mark is the text's own.
-/

set_option autoImplicit false

namespace Collate.Yaml

/-- What a tag says of a node. -/
inductive Tag where
  | null
  | bool
  | integer
  | real
  /-- Something that only the text's author knows. -/
  | own
  /-- The same, but the octets are no text. -/
  | garbled
  /-- Any other kind; a scalar is text then. -/
  | other
  deriving DecidableEq, Repr

/-- A tag as it is written: a handle, empty for a whole tag, and the octets behind it. -/
structure WrittenTag where
  handle : List Char
  suffix : List UInt8
  deriving DecidableEq, Repr

/-- Handles with what they stand for. -/
abbrev Handles := List (List Char × List UInt8)

/-- What a character of a tag is as an octet. -/
def asciiOctet (x : Char) : UInt8 := UInt8.ofNat x.toNat

/-- The octets of ASCII text. -/
def asciiOctets (s : String) : List UInt8 := s.toList.map asciiOctet

/-- The beginning of the tags that the language itself knows. -/
def coreStart : List UInt8 := asciiOctets "tag:yaml.org,2002:"

/-- The handles that need no declaration. -/
def knownHandles : Handles := [(['!'], asciiOctets "!"), (['!', '!'], coreStart)]

/-- Octets are the UTF-8 form of a text. -/
def areText (octets : List UInt8) : Bool := (String.fromUTF8? ⟨octets.toArray⟩).isSome

/-- What the tag with the given octets says. -/
def Tag.ofOctets (octets : List UInt8) : Tag :=
  if octets = coreStart ++ asciiOctets "null" then .null
  else if octets = coreStart ++ asciiOctets "bool" then .bool
  else if octets = coreStart ++ asciiOctets "int" then .integer
  else if octets = coreStart ++ asciiOctets "float" then .real
  else
    match octets with
    | [] => .other
    | first :: rest => if first = asciiOctet '!' then (if areText rest then .own else .garbled) else .other

/-- Octets up to the first zero. -/
def beforeZero (octets : List UInt8) : List UInt8 := octets.takeWhile (· != 0)

/-- What a written tag says; none if its handle stands for nothing. -/
def WrittenTag.resolve? (t : WrittenTag) (handles : Handles) : Option Tag :=
  if t.handle.isEmpty then some (.ofOctets (beforeZero t.suffix))
  else (handles.lookup t.handle).map fun start => .ofOctets (beforeZero start ++ beforeZero t.suffix)

/-- A character of a tag; inside of angle brackets there are more. -/
def isTagChar (whole : Bool) (x : Char) : Bool :=
  isNameChar x ||
    [';', '/', '?', ':', '@', '&', '=', '+', '$', '.', '!', '~', '*', '\x27', '(', ')'].contains x ||
    (whole && [',', '[', ']'].contains x)

/-- An octet in hexadecimal, and the characters behind it. -/
def octet? : List Char → Option (UInt8 × List Char)
  | '%' :: a :: b :: rest => (Text.digits? 16 [a, b]).map fun n => (UInt8.ofNat n, rest)
  | _ => none

/-- How many octets a UTF-8 sequence has that begins with the given one. -/
def sequenceLength? (first : UInt8) : Option Nat :=
  let n := first.toNat
  if n < 0x80 then some 1
  else if 0xC0 ≤ n && n < 0xE0 then some 2
  else if 0xE0 ≤ n && n < 0xF0 then some 3
  else if 0xF0 ≤ n && n < 0xF8 then some 4
  else none

/-- So many octets in hexadecimal that go on with a sequence, and the characters behind them. -/
def trailing? : (count : Nat) → List Char → Option (List UInt8 × List Char)
  | 0, cs => some ([], cs)
  | count + 1, cs =>
      match octet? cs with
      | none => none
      | some (o, rest) =>
          if 0x80 ≤ o.toNat && o.toNat < 0xC0 then
            (trailing? count rest).map fun (os, rest) => (o :: os, rest)
          else none

/-- A UTF-8 sequence in hexadecimal, and the characters behind it. -/
def sequence? (cs : List Char) : Option (List UInt8 × List Char) :=
  match octet? cs with
  | none => none
  | some (first, rest) =>
      match sequenceLength? first with
      | none => none
      | some n => (trailing? (n - 1) rest).map fun (os, rest) => (first :: os, rest)

/-- The octets that the characters of a tag write, and the characters behind them. -/
def tagOctets? (whole : Bool) : (room : Nat) → List Char → Option (List UInt8 × List Char)
  | 0, cs => some ([], cs)
  | room + 1, cs =>
      match cs with
      | [] => some ([], [])
      | x :: rest =>
          if x = '%' then
            match sequence? cs with
            | none => none
            | some (os, rest) => (tagOctets? whole room rest).map fun (more, rest) => (os ++ more, rest)
          else if isTagChar whole x then
            (tagOctets? whole room rest).map fun (more, rest) => (asciiOctet x :: more, rest)
          else some ([], cs)

/-- A tag between angle brackets, the opening one passed, and the characters behind it. -/
def wholeTag? (cs : List Char) : Option (WrittenTag × List Char) :=
  match tagOctets? true cs.length cs with
  | some (o :: os, '>' :: rest) => some (⟨[], o :: os⟩, rest)
  | _ => none

/-- A tag behind its first exclamation mark. One more behind a name closes a handle; without it
the name belongs to the tag. An exclamation mark alone is a whole tag. -/
def shortTag? (cs : List Char) : Option (WrittenTag × List Char) :=
  let name := cs.takeWhile isNameChar
  match cs.dropWhile isNameChar with
  | '!' :: rest =>
      match tagOctets? false rest.length rest with
      | some (o :: os, rest) => some (⟨'!' :: name ++ ['!'], o :: os⟩, rest)
      | _ => none
  | rest =>
      (tagOctets? false rest.length rest).map fun (os, rest) =>
        let suffix := name.map asciiOctet ++ os
        if (beforeZero suffix).isEmpty then (⟨[], asciiOctets "!"⟩, rest) else (⟨['!'], suffix⟩, rest)

/-- A tag, and the characters behind it. -/
def writtenTag? : List Char → Option (WrittenTag × List Char)
  | '!' :: '<' :: rest => wholeTag? rest
  | '!' :: rest => shortTag? rest
  | _ => none

/-- The cursor before the given end of its text. -/
def Cursor.skipTo (c : Cursor) (rest : List Char) : Cursor := c.skip (c.rest.length - rest.length)

/-- A tag that a blank or the end follows, or in brackets a comma, and the cursor behind it. -/
def tagAt? (flow : Bool) (c : Cursor) : Option (WrittenTag × Cursor) :=
  (writtenTag? c.rest).bind fun (t, rest) =>
    let c := c.skipTo rest
    if c.blankAt 0 || (flow && c.sees 0 ',') then some (t, c) else none

/-- A declared handle, and the characters behind it. -/
def handle? : List Char → Option (List Char × List Char)
  | '!' :: cs =>
      let name := cs.takeWhile isNameChar
      match cs.dropWhile isNameChar with
      | '!' :: rest => some ('!' :: name ++ ['!'], rest)
      | rest => if name.isEmpty then some (['!'], rest) else none
  | _ => none

/-- The declaration of a handle: the handle, what it stands for, and the cursor behind them. -/
def declaration? (c : Cursor) : Option ((List Char × List UInt8) × Cursor) :=
  (handle? c.rest).bind fun (handle, rest) =>
    let (blanks, c) := (c.skipTo rest).takeWhile isBlank
    match tagOctets? true c.rest.length c.rest with
    | some (o :: os, rest) =>
        let c := c.skipTo rest
        if !blanks.isEmpty && c.blankAt 0 then some ((handle, o :: os), c) else none
    | _ => none

end Collate.Yaml
