import Collate.Floating.Text
import Collate.Json.Basic

/-!
# Texts of JSON values

`compact` writes a value without blanks, `pretty` with two blanks per level and a line per
item. Inside strings only the quote, the backslash and the controls are escaped.
-/

set_option autoImplicit false

namespace Collate.Json

/-- The digits of a number up to fifteen. -/
def hexDigit (n : Nat) : Char := if n < 10 then Char.ofNat (48 + n) else Char.ofNat (87 + n)

/-- A character as it stands inside a string. -/
def escapeChar (c : Char) : List Char :=
  if c = '"' then ['\\', '"']
  else if c = '\\' then ['\\', '\\']
  else if c = '\x08' then ['\\', 'b']
  else if c = '\t' then ['\\', 't']
  else if c = '\n' then ['\\', 'n']
  else if c = '\x0c' then ['\\', 'f']
  else if c = '\r' then ['\\', 'r']
  else if c.toNat < 0x20 then
    ['\\', 'u', '0', '0', hexDigit (c.toNat / 16), hexDigit (c.toNat % 16)]
  else [c]

/-- A string between quotes. -/
def quote (s : String) : List Char :=
  '"' :: (s.toList.flatMap escapeChar ++ ['"'])

/-- The digits of an integer with its sign. -/
def intText (n : Int) : List Char :=
  if n < 0 then '-' :: Nat.toDigits 10 n.natAbs else Nat.toDigits 10 n.natAbs

def numberText : Number → List Char
  | .int n => intText n
  | .float x => x.text

mutual
/-- A value without blanks. -/
def text : Json → List Char
  | .null => ['n', 'u', 'l', 'l']
  | .bool true => ['t', 'r', 'u', 'e']
  | .bool false => ['f', 'a', 'l', 's', 'e']
  | .number n => numberText n
  | .string s => quote s
  | .array [] => ['[', ']']
  | .array (item :: rest) => '[' :: (text item ++ textItems rest)
  | .object [] => ['\x7b', '\x7d']
  | .object ((name, value) :: rest) =>
      '\x7b' :: (quote name ++ ':' :: (text value ++ textFields rest))
/-- The items of an array behind its first. -/
def textItems : List Json → List Char
  | [] => [']']
  | item :: rest => ',' :: (text item ++ textItems rest)
/-- The fields of an object behind its first. -/
def textFields : List (String × Json) → List Char
  | [] => ['\x7d']
  | (name, value) :: rest => ',' :: (quote name ++ ':' :: (text value ++ textFields rest))
end

/-- A line break with the blanks of a level behind it. -/
def newline (level : Nat) : List Char := '\n' :: List.replicate (2 * level) ' '

mutual
/-- A value at a level of nesting, with a line for each item. -/
def prettyText (level : Nat) : Json → List Char
  | .array (item :: rest) =>
      '[' :: (newline (level + 1) ++ (prettyText (level + 1) item ++ prettyItems level rest))
  | .object ((name, value) :: rest) =>
      '\x7b' :: (newline (level + 1) ++ (quote name ++ ':' :: ' ' ::
        (prettyText (level + 1) value ++ prettyFields level rest)))
  | .array [] => ['[', ']']
  | .object [] => ['\x7b', '\x7d']
  | .null => text .null
  | .bool b => text (.bool b)
  | .number n => numberText n
  | .string s => quote s
/-- The items of an array behind its first, each on a line. -/
def prettyItems (level : Nat) : List Json → List Char
  | [] => newline level ++ [']']
  | item :: rest =>
      ',' :: (newline (level + 1) ++ (prettyText (level + 1) item ++ prettyItems level rest))
/-- The fields of an object behind its first, each on a line. -/
def prettyFields (level : Nat) : List (String × Json) → List Char
  | [] => newline level ++ ['\x7d']
  | (name, value) :: rest =>
      ',' :: (newline (level + 1) ++ (quote name ++ ':' :: ' ' ::
        (prettyText (level + 1) value ++ prettyFields level rest)))
end

/-- A value as text without blanks. -/
def compact (j : Json) : String := String.ofList j.text

/-- A value as text with a line for each item. -/
def pretty (j : Json) : String := String.ofList (j.prettyText 0)

end Collate.Json
