import Collate.Document.Basic
import Collate.Yaml.Node

/-!
# Values in YAML

A plain scalar is null, a truth value, an integer or another number if it is written like
one, and text otherwise; any other scalar is text. A tag overrules this. A tree is made a
document where it is looked at: aliases are followed, not too often in all, and containers may
not nest too deep. Where a name or a size is expected a scalar is taken by its text.
-/

set_option autoImplicit false

namespace Collate.Yaml

/-- How deep containers may nest. -/
def depthLimit : Nat := 128

/-- A zero with more digits behind it: text, not a number. -/
def isZeroPadded (cs : List Char) : Bool :=
  let digits :=
    match cs with
    | '-' :: rest => rest
    | '+' :: rest => rest
    | rest => rest
  match digits with
  | '0' :: d :: rest => (d :: rest).all Char.isDigit
  | _ => false

/-- A text that starts with a sign. -/
def isSigned (cs : List Char) : Bool :=
  match cs with
  | x :: _ => x = '+' || x = '-'
  | [] => false

/-- The value of digits with a letter for their base in front, or of decimal digits. -/
def magnitude? : List Char → Option Nat
  | '0' :: 'x' :: rest => Text.digits? 16 rest
  | '0' :: 'o' :: rest => Text.digits? 8 rest
  | '0' :: 'b' :: rest => Text.digits? 2 rest
  | cs => Text.digits? 10 cs

/-- The integer that a plain scalar writes. Values beyond 128 bits are none, and a negative
zero is none either. -/
def integer? (cs : List Char) : Option Int :=
  let bare := Text.dropPlus cs
  if isZeroPadded cs then none
  else
    match bare with
    | '-' :: rest =>
        if cs.head? = some '+' then none
        else
          match magnitude? rest with
          | some n => if n ≠ 0 && n ≤ Nat.pow 2 127 then some (-(n : Int)) else none
          | none => none
    | bare =>
        match magnitude? bare with
        | some n => if n < Nat.pow 2 128 then some n else none
        | none => none

/-- A scalar that writes a number, maybe as an integer. -/
def isReal (cs : List Char) : Bool :=
  let bare := Text.dropPlus cs
  let named (names : List String) (cs : List Char) : Bool := names.contains (String.ofList cs)
  let plusSign := cs.head? = some '+'
  if plusSign && isSigned bare then false
  else if named [".inf", ".Inf", ".INF"] bare then true
  else if named ["-.inf", "-.Inf", "-.INF", ".nan", ".NaN", ".NAN"] cs then true
  else
    match Decimal.ofText? bare with
    | some d => (d.round .double).isFinite
    | none => false

/-- A plain scalar that writes a negative zero as an integer. -/
def isNegativeZero (cs : List Char) : Bool :=
  match cs with
  | '-' :: rest => !isZeroPadded cs && magnitude? rest == some 0
  | _ => false

/-- A scalar that writes null. -/
def isNull (cs : List Char) : Bool := ["~", "null", "Null", "NULL"].contains (String.ofList cs)

/-- The truth value that a scalar writes. -/
def bool? (cs : List Char) : Option Bool :=
  let s := String.ofList cs
  if ["true", "True", "TRUE"].contains s then some true
  else if ["false", "False", "FALSE"].contains s then some false
  else none

/-- The document of an integer. A negative zero is kept apart from the integers. -/
def ofInteger? (cs : List Char) : Option Document :=
  match integer? cs with
  | some n => some (.integer n)
  | none => if isNegativeZero cs then some .real else none

/-- The document of a plain scalar. -/
def resolve (cs : List Char) : Document :=
  if cs.isEmpty || isNull cs then .null
  else
    match bool? cs, ofInteger? cs with
    | some b, _ => .bool b
    | none, some d => d
    | none, none => if !isZeroPadded cs && isReal cs then .real else .text (String.ofList cs)

namespace Scalar

/-- The document of a scalar; none if the tag is the text's own, or asks for what the scalar
does not write. -/
def value? (s : Scalar) : Option Document :=
  match s.tag with
  | none | some .garbled =>
      some (if s.style = .plain then resolve s.text else .text (String.ofList s.text))
  | some .own => none
  | some .null => if isNull s.text then some .null else none
  | some .bool => (bool? s.text).map .bool
  | some .integer => ofInteger? s.text
  | some .real => if isReal s.text then some .real else none
  | some .other => some (.text (String.ofList s.text))

/-- Whether a scalar says that nothing is given; none if it is tagged so and does not. -/
def absent? (s : Scalar) : Option Bool :=
  match s.style, s.tag with
  | .plain, none => some (s.text.isEmpty || isNull s.text)
  | .plain, some .null => if isNull s.text then some true else none
  | _, _ => some false

/-- Nothing is written, whatever the tag. -/
def isBlank (s : Scalar) : Bool := s.style = .plain && s.text.isEmpty

/-- The integer of a scalar that is expected to be one: a plain one with any tag, or a literal
one tagged so. -/
def size? (s : Scalar) : Option Int :=
  if s.style = .plain || (s.style = .literal && s.tag = some .integer) then integer? s.text else none

end Scalar

/-- How often aliases may be followed for each mark that a document is written with. -/
def jumpsPerMark : Nat := 100

/-- What is made while aliases may be followed so many more times; none if they run out, or if
containers nest too deep. -/
abbrev Expansion := StateT Nat Option

namespace Expansion

/-- What is there, if anything is. -/
def ofOption {α : Type} (a : Option α) : Expansion α := fun jumps => a.map fun a => (a, jumps)

end Expansion

/-- The node that a node stands for: an alias is followed, any other node is itself. -/
def follow (anchored : Node.Anchored) : Node → Expansion Node
  | .alias anchor => fun jumps =>
      match jumps, anchored.lookup anchor with
      | jumps + 1, some node => some (node, jumps)
      | _, _ => none
  | node => pure node

/-- A container whose tag is not the text's own can be read as any value. -/
def isPublic (tag : Option Tag) : Bool := tag != some .own

/-- The document of a node, with room for so many more containers inside one another. -/
def expand (anchored : Node.Anchored) : (room : Nat) → Node → Expansion Document
  | 0, node => do
      match ← follow anchored node with
      | .scalar s => .ofOption s.value?
      | _ => failure
  | room + 1, node => do
      match ← follow anchored node with
      | .scalar s => .ofOption s.value?
      | .sequence tag items =>
          if isPublic tag then do
            let items ← items.mapM (expand anchored room)
            pure (.sequence items)
          else failure
      | .mapping tag entries =>
          if isPublic tag then do
            let entries ← entries.mapM fun (key, value) => do
              let key ← expand anchored room key
              let value ← expand anchored room value
              pure (key, value)
            pure (.mapping entries)
          else failure
      | .alias _ => failure

/-- The name that a node stands for: the text of a scalar, whatever its tag. -/
def expandName (anchored : Node.Anchored) (node : Node) : Expansion String := do
  match ← follow anchored node with
  | .scalar s => pure (String.ofList s.text)
  | _ => failure

/-- The size that a node stands for, if one is given. -/
def expandSize (anchored : Node.Anchored) (node : Node) : Expansion Document := do
  match ← follow anchored node with
  | .scalar s =>
      match s.absent? with
      | some true => pure .null
      | some false => .ofOption (s.size?.map .integer)
      | none => failure
  | _ => failure

/-- What is made of a tree, from the entries of the mapping that it must be. -/
def Tree.make? {α : Type} (tree : Tree) (make : List (Node × Node) → Expansion α) : Option α :=
  match tree.root with
  | .mapping _ entries => ((make entries).run (jumpsPerMark * tree.root.size)).map Prod.fst
  | _ => none

end Collate.Yaml
