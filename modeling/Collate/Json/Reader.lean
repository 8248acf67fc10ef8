import Collate.Json.Literal

/-!
# Reading JSON texts

`literal?` takes a whole text apart by the JSON grammar; blanks are the space, the tab and
the two line breaks. `parse?` is the value it stands for.
-/

set_option autoImplicit false

namespace Collate.Json

/-- The blanks that may stand between the parts of a text. -/
def isSpace (c : Char) : Bool := c = ' ' || c = '\t' || c = '\n' || c = '\r'

def skipSpace (cs : List Char) : List Char := cs.dropWhile isSpace

/-- The unit written by four hexadecimal digits. -/
def unit? (a b c d : Char) : Option Nat :=
  Text.digits? 16 [a, b, c, d]

/-- The character that a letter behind a backslash stands for. -/
def escaped? (c : Char) : Option Char :=
  if c = '"' || c = '\\' || c = '/' then some c
  else if c = 'b' then some '\x08'
  else if c = 'f' then some '\x0c'
  else if c = 'n' then some '\n'
  else if c = 'r' then some '\r'
  else if c = 't' then some '\t'
  else none

/-- The parts of a string behind its opening quote, and what follows the closing one. -/
def pieces? : List Char → Option (List Piece × List Char)
  | [] => none
  | '\\' :: 'u' :: a :: b :: c :: d :: rest =>
      match unit? a b c d, pieces? rest with
      | some u, some (ps, rest) => some (.unit u :: ps, rest)
      | _, _ => none
  | '\\' :: e :: rest =>
      match escaped? e, pieces? rest with
      | some c, some (ps, rest) => some (.char c :: ps, rest)
      | _, _ => none
  | c :: rest =>
      if c = '"' then some ([], rest)
      else if c = '\\' || c.toNat < 0x20 then none
      else
        match pieces? rest with
        | some (ps, rest) => some (.char c :: ps, rest)
        | none => none

/-- The digits behind a decimal point, if there is one; at least one must follow it. -/
def fraction? : List Char → Option (Option (List Char) × List Char)
  | '.' :: cs =>
      match spanDigits cs with
      | ([], _) => none
      | (ds, rest) => some (some ds, rest)
  | cs => some (none, cs)

/-- The power of ten behind a number, if there is one; at least one digit must follow it. -/
def power? : List Char → Option (Option (Bool × List Char) × List Char)
  | [] => some (none, [])
  | c :: cs =>
      if c = 'e' || c = 'E' then
        let (negative, cs) := takeSign cs
        match spanDigits cs with
        | ([], _) => none
        | (ds, rest) => some (some (negative, ds), rest)
      else some (none, c :: cs)

/-- The digits before the point: a zero, or a run that does not start with one. -/
def whole? : List Char → Option (List Char × List Char)
  | '0' :: rest => some (['0'], rest)
  | cs =>
      match spanDigits cs with
      | ([], _) => none
      | (ds, rest) => some (ds, rest)

/-- A number in front of a text, and the rest. -/
def numeral? (cs : List Char) : Option (Numeral × List Char) :=
  let (negative, cs) :=
    match cs with
    | '-' :: rest => (true, rest)
    | cs => (false, cs)
  match whole? cs with
  | none => none
  | some (whole, cs) =>
      match fraction? cs with
      | none => none
      | some (fraction, cs) =>
          match power? cs with
          | none => none
          | some (exponent, cs) => some (⟨negative, whole, fraction, exponent⟩, cs)

mutual
/-- A literal in front of a text, and the rest. -/
def readValue : (fuel : Nat) → List Char → Option (Literal × List Char)
  | 0, _ => none
  | fuel + 1, cs =>
      match skipSpace cs with
      | 'n' :: 'u' :: 'l' :: 'l' :: rest => some (.null, rest)
      | 't' :: 'r' :: 'u' :: 'e' :: rest => some (.bool true, rest)
      | 'f' :: 'a' :: 'l' :: 's' :: 'e' :: rest => some (.bool false, rest)
      | '"' :: rest => (pieces? rest).map fun (ps, rest) => (.string ps, rest)
      | '[' :: rest =>
          match skipSpace rest with
          | ']' :: rest => some (.array [], rest)
          | rest => (readItems fuel rest).map fun (items, rest) => (.array items, rest)
      | '\x7b' :: rest =>
          match skipSpace rest with
          | '\x7d' :: rest => some (.object [], rest)
          | rest => (readFields fuel rest).map fun (fields, rest) => (.object fields, rest)
      | cs => (numeral? cs).map fun (n, rest) => (.number n, rest)
/-- The items of an array that has some, and what follows its closing bracket. -/
def readItems : (fuel : Nat) → List Char → Option (List Literal × List Char)
  | 0, _ => none
  | fuel + 1, cs =>
      match readValue fuel cs with
      | none => none
      | some (item, rest) =>
          match skipSpace rest with
          | ']' :: rest => some ([item], rest)
          | ',' :: rest => (readItems fuel rest).map fun (items, rest) => (item :: items, rest)
          | _ => none
/-- The fields of an object that has some, and what follows its closing brace. -/
def readFields : (fuel : Nat) → List Char → Option (List (List Piece × Literal) × List Char)
  | 0, _ => none
  | fuel + 1, cs =>
      match readField fuel cs with
      | none => none
      | some (field, rest) =>
          match skipSpace rest with
          | '\x7d' :: rest => some ([field], rest)
          | ',' :: rest => (readFields fuel rest).map fun (fields, rest) => (field :: fields, rest)
          | _ => none
/-- A field in front of a text, and the rest. -/
def readField : (fuel : Nat) → List Char → Option ((List Piece × Literal) × List Char)
  | 0, _ => none
  | fuel + 1, cs =>
      match skipSpace cs with
      | '"' :: rest =>
          match pieces? rest with
          | none => none
          | some (name, rest) =>
              match skipSpace rest with
              | ':' :: rest => (readValue fuel rest).map fun (value, rest) => ((name, value), rest)
              | _ => none
      | _ => none
end

/-- A whole text taken apart. -/
def literal? (cs : List Char) : Option Literal :=
  match readValue (3 * cs.length + 1) cs with
  | some (l, rest) => if (skipSpace rest).isEmpty then some l else none
  | none => none

/-- The value of a whole text. -/
def parseChars? (cs : List Char) : Option Json := (literal? cs).bind Literal.value?

/-- The value of a whole text. -/
def parse? (s : String) : Option Json := parseChars? s.toList

end Collate.Json
