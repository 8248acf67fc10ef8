import Collate.Yaml.Scalar
import Collate.Yaml.Tag

/-!
# Tokens of a YAML text

A `Lexer` reads tokens from a text. Blocks open and close by indentation, so the lexer keeps
the indentations that are open and puts tokens where blocks start and end. A key that is
not marked is recognised only by the colon behind it; for each bracket that is open the
lexer remembers where the last such key could have begun, and puts the key's token there
when the colon comes.
-/

set_option autoImplicit false

namespace Collate.Yaml

/-- A token of a YAML text. -/
inductive Token where
  /-- The version of the language. -/
  | version
  /-- A handle, and what it stands for. -/
  | handle (name : List Char) (start : List UInt8)
  | documentStart
  | documentEnd
  | blockSequenceStart
  | blockMappingStart
  | blockEnd
  | flowSequenceStart
  | flowSequenceEnd
  | flowMappingStart
  | flowMappingEnd
  | blockEntry
  | flowEntry
  | key
  | value
  | alias (name : List Char)
  | anchor (name : List Char)
  | tag (tag : WrittenTag)
  | scalar (style : Style) (text : List Char)
  deriving DecidableEq, Repr

/-- A place where a key may have begun. -/
structure KeyMark where
  possible : Bool := false
  /-- The block needs a key here. -/
  required : Bool := false
  /-- How many tokens stand before it. -/
  place : Nat := 0
  start : Cursor := { rest := [] }
  deriving Repr

/-- A text in the course of being read. -/
structure Lexer where
  cursor : Cursor
  /-- The column of the innermost open block; -1 outside of all. -/
  indent : Int := -1
  /-- The columns of the open blocks around it. -/
  outer : List Int := []
  /-- Where a key may have begun, within the innermost open bracket. -/
  mark : KeyMark := {}
  /-- The same for the brackets around it; their number is that of open brackets. -/
  marks : List KeyMark := []
  /-- Whether a key may begin here. -/
  keyAllowed : Bool := true
  tokens : Array Token := #[]
  deriving Repr

namespace Lexer

/-- Inside of a bracket. -/
def flow (lx : Lexer) : Bool := !lx.marks.isEmpty

def emit (lx : Lexer) (t : Token) : Lexer := { lx with tokens := lx.tokens.push t }

/-- A token put behind the given number of others. -/
def emitAt (lx : Lexer) (place : Nat) (t : Token) : Lexer :=
  { lx with tokens := lx.tokens.insertIdxIfInBounds place t }

/-- The place of a possible key forgotten, unless a key is needed there. -/
def dropMark (lx : Lexer) : Option Lexer :=
  if lx.mark.possible && lx.mark.required then none
  else some { lx with mark := { lx.mark with possible := false } }

/-- The place here remembered as one where a key may begin, if one may. -/
def saveMark (lx : Lexer) : Option Lexer :=
  if lx.keyAllowed then
    lx.dropMark.map fun lx =>
      { lx with mark :=
          { possible := true
            required := !lx.flow && lx.indent == lx.cursor.column
            place := lx.tokens.size
            start := lx.cursor } }
  else some lx

/-- A key ends on its line and within 1024 bytes. -/
def tooFar (lx : Lexer) (m : KeyMark) : Bool :=
  m.start.line < lx.cursor.line || m.start.index + 1024 < lx.cursor.index

/-- The place of a possible key given up if it is too far back, unless a key is needed there.
Those of the brackets around are looked at when their bracket is the innermost again. -/
def retire (lx : Lexer) : Option Lexer :=
  if lx.mark.possible && lx.tooFar lx.mark then lx.dropMark else some lx

/-- A block opened at a column deeper than the innermost one, its token put at a place. -/
def openBlock (lx : Lexer) (column : Nat) (place : Nat) (t : Token) : Lexer :=
  if lx.flow then lx
  else if lx.indent < column then
    { lx.emitAt place t with indent := column, outer := lx.indent :: lx.outer }
  else lx

/-- The blocks deeper than a column closed. -/
def closeTo (column : Int) : (outer : List Int) → Lexer → Lexer
  | [], lx => lx
  | o :: outer, lx =>
      if column < lx.indent then closeTo column outer { lx.emit .blockEnd with indent := o, outer := outer }
      else lx

/-- The blocks deeper than a column closed, outside of brackets. -/
def closeBlocks (lx : Lexer) (column : Int) : Lexer :=
  if lx.flow then lx else closeTo column lx.outer lx

/-- Blanks, comments, line breaks, and a byte order mark at the start of a line, passed over;
after a line break outside of brackets a key may begin. -/
def skipToToken : (room : Nat) → Lexer → Lexer
  | 0, lx => lx
  | room + 1, lx =>
      match lx.cursor.rest with
      | [] => lx
      | x :: _ =>
          let blank := x = ' ' || (x = '\t' && (lx.flow || !lx.keyAllowed))
          if blank || (isOrderMark x && lx.cursor.column == 0) then
            skipToToken room { lx with cursor := lx.cursor.skip 1 }
          else if x = '#' then
            skipToToken room { lx with cursor := (lx.cursor.takeWhile fun _ => true).2 }
          else if isBreak x then
            skipToToken room
              { lx with cursor := lx.cursor.skipBreak.2, keyAllowed := lx.keyAllowed || !lx.flow }
          else lx

/-- A token of so many characters read here. -/
def take (lx : Lexer) (count : Nat) (keyAllowed : Bool) (t : Token) : Lexer :=
  { lx.emit t with cursor := lx.cursor.skip count, keyAllowed := keyAllowed }

/-- An opening bracket. -/
def openFlow (lx : Lexer) (t : Token) : Option Lexer :=
  lx.saveMark.map fun lx => { lx.take 1 true t with mark := {}, marks := lx.mark :: lx.marks }

/-- A closing bracket. -/
def closeFlow (lx : Lexer) (t : Token) : Option Lexer :=
  lx.dropMark.map fun lx =>
    match lx.marks with
    | [] => lx.take 1 false t
    | mark :: marks => { lx.take 1 false t with mark := mark, marks := marks }

/-- A mark of a document, or a directive, that ends all blocks. -/
def documentToken (lx : Lexer) (t : Token) : Option Lexer :=
  (lx.closeBlocks (-1)).dropMark.map fun lx => lx.take 3 false t

/-- The version, YAML 1.1 or 1.2, each number in nine digits at most, and the cursor behind it. -/
def version? (c : Cursor) : Option Cursor :=
  let (major, c) := c.takeWhile Char.isDigit
  let (minor, d) := (c.skip 1).takeWhile Char.isDigit
  let number? (ds : List Char) : Option Nat := if ds.length ≤ 9 then Text.digits? 10 ds else none
  if c.sees 0 '.' && number? major = some 1 && (number? minor = some 1 || number? minor = some 2) then
    some d
  else none

/-- What a directive with the given name says, and the cursor behind it. -/
def directiveToken? (name : List Char) (c : Cursor) : Option (Token × Cursor) :=
  if name = ['Y', 'A', 'M', 'L'] then (version? c).map fun c => (.version, c)
  else if name = ['T', 'A', 'G'] then
    (declaration? c).map fun ((handle, start), c) => (.handle handle start, c)
  else none

/-- A directive of a document with the line break behind it. -/
def directive (lx : Lexer) : Option Lexer :=
  (lx.closeBlocks (-1)).dropMark.bind fun lx =>
    let (name, c) := (lx.cursor.skip 1).takeWhile isNameChar
    if c.blankAt 0 then
      (directiveToken? name (c.takeWhile isBlank).2).bind fun (t, c) =>
        let (_, c) := c.takeWhile isBlank
        let c := if c.sees 0 '#' then (c.takeWhile fun _ => true).2 else c
        if c.breakHere then
          some { lx.emit t with cursor := c.skipBreak.2, keyAllowed := false }
        else none
    else none

/-- An entry of a block sequence. -/
def blockEntry (lx : Lexer) : Option Lexer :=
  if lx.flow || lx.keyAllowed then
    (lx.openBlock lx.cursor.column lx.tokens.size .blockSequenceStart).dropMark.map fun lx =>
      lx.take 1 true .blockEntry
  else none

/-- A key marked as one. -/
def markedKey (lx : Lexer) : Option Lexer :=
  if lx.flow || lx.keyAllowed then
    (lx.openBlock lx.cursor.column lx.tokens.size .blockMappingStart).dropMark.map fun lx =>
      lx.take 1 (!lx.flow) .key
  else none

/-- A colon: the value of a key, which is put where it began if it was not marked. -/
def valueMark (lx : Lexer) : Option Lexer :=
  if lx.mark.possible then
    let m := lx.mark
    let lx := (lx.emitAt m.place .key).openBlock m.start.column m.place .blockMappingStart
    some ({ lx with mark := { m with possible := false } }.take 1 false .value)
  else if lx.flow then some (lx.take 1 false .value)
  else if lx.keyAllowed then
    some ((lx.openBlock lx.cursor.column lx.tokens.size .blockMappingStart).take 1 true .value)
  else none

/-- An anchor or alias: a name that a blank or an indicator follows. -/
def named (lx : Lexer) (t : List Char → Token) : Option Lexer :=
  lx.saveMark.bind fun lx =>
    let (name, c) := (lx.cursor.skip 1).takeWhile isNameChar
    let ended := c.blankAt 0 ||
      (match c.peek 0 with
        | some x => ['?', ':', ',', ']', '\x7d', '%', '@', '\x60'].contains x
        | none => true)
    if name.isEmpty || !ended then none
    else some { lx.emit (t name) with cursor := c, keyAllowed := false }

/-- A tag. -/
def tag (lx : Lexer) : Option Lexer :=
  lx.saveMark.bind fun lx =>
    (tagAt? lx.flow lx.cursor).map fun (t, c) =>
      { lx.emit (.tag t) with cursor := c, keyAllowed := false }

/-- A plain scalar. -/
def plain (lx : Lexer) : Option Lexer :=
  lx.saveMark.bind fun lx =>
    (plainScalar lx.flow (lx.indent + 1) lx.cursor).map fun (text, broken, c) =>
      { lx.emit (.scalar .plain text) with cursor := c, keyAllowed := broken }

/-- A quoted scalar. -/
def quoted (lx : Lexer) (double : Bool) : Option Lexer :=
  lx.saveMark.bind fun lx =>
    (quotedScalar double lx.cursor).map fun (text, c) =>
      { lx.emit (.scalar .quoted text) with cursor := c, keyAllowed := false }

/-- A block scalar. -/
def block (lx : Lexer) (literal : Bool) : Option Lexer :=
  lx.dropMark.bind fun lx =>
    (blockScalar literal lx.indent lx.cursor).map fun (text, c) =>
      { lx.emit (.scalar (if literal then .literal else .folded) text) with cursor := c, keyAllowed := true }

/-- A character that a plain scalar cannot begin with. -/
def isIndicator (x : Char) : Bool :=
  ['-', '?', ':', ',', '[', ']', '\x7b', '\x7d', '#', '&', '*', '!', '|', '>', '\x27', '"', '%', '@',
    '\x60'].contains x

/-- A plain scalar can begin here. -/
def plainHere (lx : Lexer) (x : Char) : Bool :=
  !(isBlank x || isBreak x || isIndicator x) ||
    (x = '-' && !(match lx.cursor.peek 1 with | some y => isBlank y | none => false)) ||
    (!lx.flow && (x = '?' || x = ':') && !lx.cursor.blankAt 1)

/-- The token that begins with the character here. -/
def readToken (lx : Lexer) (x : Char) : Option Lexer :=
  if lx.cursor.column == 0 && x = '%' then lx.directive
  else if lx.cursor.marker '-' then lx.documentToken .documentStart
  else if lx.cursor.marker '.' then lx.documentToken .documentEnd
  else if x = '[' then lx.openFlow .flowSequenceStart
  else if x = '\x7b' then lx.openFlow .flowMappingStart
  else if x = ']' then lx.closeFlow .flowSequenceEnd
  else if x = '\x7d' then lx.closeFlow .flowMappingEnd
  else if x = ',' then lx.dropMark.map fun lx => lx.take 1 true .flowEntry
  else if x = '-' && lx.cursor.blankAt 1 then lx.blockEntry
  else if x = '?' && (lx.flow || lx.cursor.blankAt 1) then lx.markedKey
  else if x = ':' && (lx.flow || lx.cursor.blankAt 1) then lx.valueMark
  else if x = '*' then lx.named .alias
  else if x = '&' then lx.named .anchor
  else if x = '!' then lx.tag
  else if x = '|' && !lx.flow then lx.block true
  else if x = '>' && !lx.flow then lx.block false
  else if x = '\x27' then lx.quoted false
  else if x = '"' then lx.quoted true
  else if lx.plainHere x then lx.plain
  else none

/-- Tokens up to the end of the text, where all blocks are closed. -/
def run : (room : Nat) → Lexer → Option (Array Token)
  | 0, _ => none
  | room + 1, lx =>
      match (skipToToken (lx.cursor.rest.length + 1) lx).retire with
      | none => none
      | some lx =>
          match lx.cursor.rest with
          | [] => (lx.closeBlocks (-1)).dropMark.map fun lx => lx.tokens
          | x :: _ =>
              match (lx.closeBlocks lx.cursor.column).readToken x with
              | some lx => run room lx
              | none => none

end Lexer

/-- The tokens of a text, if it is one. -/
def tokens? (source : List Char) : Option (List Token) :=
  if source.all isAllowed then
    (Lexer.run (source.length + 2) { cursor := { rest := source } }).map Array.toList
  else none

end Collate.Yaml
