import Collate.Text.Numeral
import Collate.Yaml.Cursor

/-!
# Scalars in a YAML text

Plain scalars and quoted ones may run over lines: one line break between words is read as a
space, and of several the first is dropped. Block scalars keep their lines or fold them.
Each function reads one scalar and gives its text with the cursor behind it.
-/

set_option autoImplicit false

namespace Collate.Yaml

/-- How a scalar is written. -/
inductive Style where
  | plain
  | quoted
  /-- A block that keeps its lines. -/
  | literal
  /-- A block that folds them. -/
  | folded
  deriving DecidableEq, Repr

/-- Blanks and line breaks met since the last word. -/
structure Gap where
  /-- Blanks on the word's own line. -/
  blanks : List Char := []
  /-- Whether a line has ended. -/
  broken : Bool := false
  /-- The first line break. -/
  first : List Char := []
  /-- The line breaks after it. -/
  others : List Char := []

namespace Gap

/-- What a gap is read as when another word follows. -/
def folded (g : Gap) : List Char :=
  if g.broken then
    if g.first = ['\n'] then (if g.others.isEmpty then [' '] else g.others)
    else g.first ++ g.others
  else g.blanks

/-- Blanks and line breaks from here on; with an indentation given, a tab in it is refused. -/
def read (indent : Option Int) : (room : Nat) → Gap → Cursor → Option (Gap × Cursor)
  | 0, g, c => some (g, c)
  | room + 1, g, c =>
      match c.rest with
      | [] => some (g, c)
      | x :: _ =>
          if isBlank x then
            let misplaced :=
              match indent with
              | some i => g.broken && x = '\t' && (c.column : Int) < i
              | none => false
            if misplaced then none
            else
              read indent room (if g.broken then g else { g with blanks := g.blanks ++ [x] }) (c.skip 1)
          else if isBreak x then
            let (text, next) := c.skipBreak
            let g : Gap :=
              if g.broken then { g with others := g.others ++ text }
              else { g with blanks := [], broken := true, first := text }
            read indent room g next
          else some (g, c)

end Gap

/-- A character that ends a plain scalar inside brackets. -/
def isFlowMark (x : Char) : Bool :=
  x = ',' || x = '[' || x = ']' || x = '\x7b' || x = '\x7d'

/-- A word of a plain scalar; inside brackets a colon must not stand before a flow mark. -/
def plainWord (flow : Bool) : List Char → Option (List Char)
  | [] => some []
  | x :: rest =>
      let next := rest.head?
      let beforeBlank := match next with | none => true | some y => isBlank y || isBreak y
      let beforeMark := match next with | none => false | some y => isFlowMark y || y = '?'
      if isBlank x || isBreak x then some []
      else if flow && x = ':' && beforeMark then none
      else if x = ':' && beforeBlank then some []
      else if flow && isFlowMark x then some []
      else (plainWord flow rest).map (x :: ·)

/-- The words of a plain scalar behind those read, and whether a line has ended behind them. -/
def plainWords (flow : Bool) (indent : Int) :
    (room : Nat) → List Char → Gap → Cursor → Option (List Char × Bool × Cursor)
  | 0, _, _, _ => none
  | room + 1, text, gap, c =>
      if c.documentMark || c.sees 0 '#' then some (text, gap.broken, c)
      else
        match plainWord flow c.rest with
        | none => none
        | some [] => some (text, gap.broken, c)
        | some word =>
            let text := text ++ gap.folded ++ word
            match Gap.read (some indent) c.rest.length {} (c.skip word.length) with
            | none => none
            | some (gap, c) =>
                if !flow && (c.column : Int) < indent then some (text, gap.broken, c)
                else plainWords flow indent room text gap c

/-- A plain scalar whose lines must be indented by so much, and whether a line has ended
behind it. -/
def plainScalar (flow : Bool) (indent : Int) (c : Cursor) : Option (List Char × Bool × Cursor) :=
  plainWords flow indent (c.rest.length + 1) [] {} c

/-- A word of a single-quoted scalar, and whether the scalar ends behind it. -/
def singleWord : (room : Nat) → Cursor → List Char × Cursor
  | 0, c => ([], c)
  | room + 1, c =>
      match c.rest with
      | '\x27' :: '\x27' :: _ =>
          let (word, next) := singleWord room (c.skip 2)
          ('\x27' :: word, next)
      | x :: _ =>
          if x = '\x27' || isBlank x || isBreak x then ([], c)
          else
            let (word, next) := singleWord room (c.skip 1)
            (x :: word, next)
      | [] => ([], c)

/-- The character written by an escape of one letter. -/
def simpleEscape? (x : Char) : Option Char :=
  [('0', 0), ('a', 7), ('b', 8), ('t', 9), ('\t', 9), ('n', 10), ('v', 11), ('f', 12), ('r', 13),
    ('e', 27), (' ', 32), ('"', 34), ('/', 47), ('\\', 92), ('N', 0x85), ('_', 0xA0), ('L', 0x2028),
    ('P', 0x2029)].lookup x |>.map Char.ofNat

/-- How many hexadecimal digits an escape takes. -/
def escapeDigits? (x : Char) : Option Nat := [('x', 2), ('u', 4), ('U', 8)].lookup x

/-- The character written by hexadecimal digits. -/
def hexEscape? (ds : List Char) : Option Char :=
  (Text.digits? 16 ds).bind fun n =>
    if n < 0xD800 || (0xDFFF < n && n < 0x110000) then some (Char.ofNat n) else none

/-- A word of a double-quoted scalar. The flag says that it ends in an escaped line break. -/
def doubleWord : (room : Nat) → Cursor → Option (List Char × Bool × Cursor)
  | 0, c => some ([], false, c)
  | room + 1, c =>
      match c.rest with
      | [] => some ([], false, c)
      | '\\' :: x :: rest =>
          if isBreak x then some ([], true, ((c.skip 1).skipBreak).2)
          else
            match simpleEscape? x, escapeDigits? x with
            | some y, _ =>
                (doubleWord room (c.skip 2)).map fun (word, cut, next) => (y :: word, cut, next)
            | none, some n =>
                if (rest.take n).length = n then
                  match hexEscape? (rest.take n) with
                  | some y =>
                      (doubleWord room (c.skip (2 + n))).map fun (word, cut, next) => (y :: word, cut, next)
                  | none => none
                else none
            | none, none => none
      | x :: rest =>
          if x = '\\' && rest.isEmpty then none
          else if x = '"' || isBlank x || isBreak x then some ([], false, c)
          else (doubleWord room (c.skip 1)).map fun (word, cut, next) => (x :: word, cut, next)

/-- The words of a quoted scalar behind those read, up to the closing quote. -/
def quotedWords (double : Bool) : (room : Nat) → List Char → Cursor → Option (List Char × Cursor)
  | 0, _, _ => none
  | room + 1, text, c =>
      if c.documentMark || c.rest.isEmpty then none
      else
        let word :=
          if double then doubleWord c.rest.length c
          else
            let (word, next) := singleWord c.rest.length c
            some (word, false, next)
        match word with
        | none => none
        | some (word, cut, c) =>
            let text := text ++ word
            if c.sees 0 (if double then '"' else '\x27') then some (text, c.skip 1)
            else
              match Gap.read none c.rest.length { broken := cut } c with
              | none => none
              | some (gap, c) => quotedWords double room (text ++ gap.folded) c

/-- A quoted scalar, the cursor on its opening quote. -/
def quotedScalar (double : Bool) (c : Cursor) : Option (List Char × Cursor) :=
  quotedWords double (c.rest.length + 1) [] (c.skip 1)

/-- What becomes of the line breaks at the end of a block scalar. -/
inductive Chomping where
  | strip
  | clip
  | keep
  deriving DecidableEq, Repr

/-- The chomping that a mark stands for. -/
def chomping? (x : Char) : Option Chomping :=
  if x = '+' then some .keep else if x = '-' then some .strip else none

/-- The header of a block scalar: chomping and indentation in either order. -/
def blockHeader (c : Cursor) : Option (Chomping × Option Nat × Cursor) :=
  let indentAt (c : Cursor) : Option (Option Nat × Cursor) :=
    match c.rest with
    | x :: _ =>
        if x = '0' then none
        else if x.isDigit then some (some (x.toNat - 48), c.skip 1)
        else some (none, c)
    | [] => some (none, c)
  let chompAt (c : Cursor) : Option Chomping × Cursor :=
    match c.rest with
    | x :: _ =>
        match chomping? x with
        | some k => (some k, c.skip 1)
        | none => (none, c)
    | [] => (none, c)
  match chompAt c with
  | (some k, c) => (indentAt c).map fun (i, c) => (k, i, c)
  | (none, c) =>
      match indentAt c with
      | none => none
      | some (none, c) => some (.clip, none, c)
      | some (some i, c) =>
          let (k, c) := chompAt c
          some (k.getD .clip, some i, c)

/-- The empty lines from here on, the widest indentation met, and the cursor behind them.
With the indentation known, only as many blanks are passed over. -/
def blockBreaks (indent : Option Nat) :
    (room : Nat) → (breaks : List Char) → (widest : Nat) → Cursor → Option (List Char × Nat × Cursor)
  | 0, breaks, widest, c => some (breaks, widest, c)
  | room + 1, breaks, widest, c =>
      let within (column : Nat) : Bool := match indent with | none => true | some i => column < i
      let run := c.rest.takeWhile (· = ' ')
      let count := match indent with | none => run.length | some i => min run.length (i - c.column)
      let c := c.skip count
      let widest := max widest c.column
      if within c.column && c.sees 0 '\t' then none
      else
        match c.rest with
        | [] => some (breaks, widest, c)
        | x :: _ =>
            if isBreak x then
              let (text, next) := c.skipBreak
              blockBreaks indent room (breaks ++ text) widest next
            else some (breaks, widest, c)

/-- The lines of a block scalar behind those read. `last` is the break behind the last line
and `breaks` are the empty lines after it; `spaced` says that the last line began with a blank. -/
def blockLines (literal : Bool) (chomping : Chomping) (indent : Nat) :
    (room : Nat) → (text last breaks : List Char) → (spaced : Bool) → Cursor →
      Option (List Char × Cursor)
  | 0, _, _, _, _, _ => none
  | room + 1, text, last, breaks, spaced, c =>
      if c.column == indent && !c.rest.isEmpty then
        let blankFirst := match c.rest with | x :: _ => isBlank x | [] => false
        let text :=
          if !literal && last = ['\n'] && !spaced && !blankFirst then
            if breaks.isEmpty then text ++ [' '] else text
          else text ++ last
        let text := text ++ breaks
        let (line, c) := c.takeWhile fun _ => true
        let (last, c) := c.skipBreak
        match blockBreaks (some indent) (c.rest.length + 1) [] 0 c with
        | none => none
        | some (breaks, _, c) =>
            blockLines literal chomping indent room (text ++ line) last breaks blankFirst c
      else
        some (match chomping with
          | .strip => text
          | .clip => text ++ last
          | .keep => text ++ last ++ breaks, c)

/-- A block scalar in a block indented by `indent`, the cursor on its mark. -/
def blockScalar (literal : Bool) (indent : Int) (c : Cursor) : Option (List Char × Cursor) :=
  match blockHeader (c.skip 1) with
  | none => none
  | some (chomping, increment, c) =>
      let (_, c) := c.takeWhile isBlank
      let c := if c.sees 0 '#' then (c.takeWhile fun _ => true).2 else c
      if !c.breakHere then none
      else
        let (_, c) := c.skipBreak
        let fixed := increment.map fun n => (max indent 0).toNat + n
        match blockBreaks fixed (c.rest.length + 1) [] 0 c with
        | none => none
        | some (breaks, widest, c) =>
            let width := fixed.getD (max (max widest (indent + 1).toNat) 1)
            blockLines literal chomping width (c.rest.length + 1) [] [] breaks false c

end Collate.Yaml
