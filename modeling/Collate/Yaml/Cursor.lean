/-!
# Places in a YAML text

A cursor is the rest of a text with its place: how many bytes are behind it, and its line and
column, which is counted in characters. Line breaks are the line feed, the carriage return with or without one,
and three wider ones; the first three and the next-line character are read as a line feed.
-/

set_option autoImplicit false

namespace Collate.Yaml

def isBlank (c : Char) : Bool := c = ' ' || c = '\t'

def isBreak (c : Char) : Bool :=
  c = '\n' || c = '\r' || c.toNat == 0x85 || c.toNat == 0x2028 || c.toNat == 0x2029

/-- The characters that a YAML text may hold. -/
def isAllowed (c : Char) : Bool :=
  let n := c.toNat
  n == 0x09 || n == 0x0A || n == 0x0D || (0x20 ≤ n && n ≤ 0x7E) || n == 0x85 ||
    (0xA0 ≤ n && n ≤ 0xD7FF) || (0xE000 ≤ n && n ≤ 0xFFFD) || 0x10000 ≤ n

/-- A character of a name. -/
def isNameChar (x : Char) : Bool := x.isAlphanum || x = '_' || x = '-'

/-- The byte order mark. -/
def isOrderMark (c : Char) : Bool := c.toNat == 0xFEFF

/-- The rest of a text and its place. -/
structure Cursor where
  rest : List Char
  index : Nat := 0
  line : Nat := 0
  column : Nat := 0
  deriving Repr

namespace Cursor

/-- The character so many places ahead. -/
def peek (c : Cursor) (n : Nat) : Option Char := c.rest[n]?

/-- The character ahead is the given one. -/
def sees (c : Cursor) (n : Nat) (x : Char) : Bool := c.peek n == some x

/-- The text ends so many places ahead, or a blank or a line break stands there. -/
def blankAt (c : Cursor) (n : Nat) : Bool :=
  match c.peek n with
  | none => true
  | some x => isBlank x || isBreak x

/-- The text ends here, or a line break stands here. -/
def breakHere (c : Cursor) : Bool :=
  match c.rest with
  | [] => true
  | x :: _ => isBreak x

/-- How many bytes characters take. -/
def width (cs : List Char) : Nat := cs.foldl (fun n x => n + x.utf8Size) 0

/-- The cursor behind so many characters, none of them a line break. -/
def skip (c : Cursor) (n : Nat) : Cursor :=
  { c with
    rest := c.rest.drop n
    index := c.index + width (c.rest.take n)
    column := c.column + n }

/-- The characters from here on that pass a test, none of them a line break, and the cursor
behind them. -/
def takeWhile (c : Cursor) (test : Char → Bool) : List Char × Cursor :=
  let run := c.rest.takeWhile fun x => test x && !isBreak x
  (run, c.skip run.length)

/-- The cursor behind the line break that stands here, and the characters it is read as. -/
def skipBreak (c : Cursor) : List Char × Cursor :=
  match c.rest with
  | [] => ([], c)
  | '\r' :: '\n' :: rest => (['\n'], ⟨rest, c.index + 2, c.line + 1, 0⟩)
  | x :: rest =>
      let next : Cursor := ⟨rest, c.index + x.utf8Size, c.line + 1, 0⟩
      if x = '\n' || x = '\r' || x.toNat == 0x85 then (['\n'], next) else ([x], next)

/-- Three equal characters that a blank or the end follows, at the start of a line. -/
def marker (c : Cursor) (x : Char) : Bool :=
  c.column == 0 && c.sees 0 x && c.sees 1 x && c.sees 2 x && c.blankAt 3

/-- The mark of a document's start or end. -/
def documentMark (c : Cursor) : Bool := c.marker '-' || c.marker '.'

end Cursor

end Collate.Yaml
