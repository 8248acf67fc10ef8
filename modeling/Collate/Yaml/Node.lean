import Collate.Yaml.Anchor

/-!
# Nodes of a YAML document

The tokens of a text are put together to the one document that it holds: a tree of scalars,
sequences, mappings and aliases, with the nodes that anchors were put on at hand. All but
aliases may have tags. A node may be left out where an entry, key or value is marked; a blank
plain scalar stands there.
-/

set_option autoImplicit false

namespace Collate.Yaml

/-- A scalar as it is written. -/
structure Scalar where
  tag : Option Tag
  style : Style
  text : List Char
  deriving DecidableEq, Repr

/-- A tree of scalars, sequences, mappings and aliases. -/
inductive Node where
  | scalar (scalar : Scalar)
  | sequence (tag : Option Tag) (items : List Node)
  | mapping (tag : Option Tag) (entries : List (Node × Node))
  /-- What stands for the node of the anchor at this place among all anchors. -/
  | alias (anchor : Nat)
  deriving Inhabited

namespace Node

/-- A node that is left out. -/
def omitted (tag : Option Tag) : Node := .scalar ⟨tag, .plain, []⟩

mutual
/-- How many marks a node is written with: one for a scalar or an alias, and two around what
is in a container. -/
def size : Node → Nat
  | .scalar _ => 1
  | .alias _ => 1
  | .sequence _ items => 2 + sizeOfItems items
  | .mapping _ entries => 2 + sizeOfEntries entries
/-- The size of the items of a sequence. -/
def sizeOfItems : List Node → Nat
  | [] => 0
  | item :: rest => size item + sizeOfItems rest
/-- The size of the keys and values of a mapping. -/
def sizeOfEntries : List (Node × Node) → Nat
  | [] => 0
  | (key, value) :: rest => size key + size value + sizeOfEntries rest
end

/-- Nodes that anchors were put on, by the places of the anchors. -/
abbrev Anchored := List (Nat × Node)

/-- What is left to read, and what was met of anchors. -/
structure Rest where
  tokens : List Token
  /-- What the handles of tags stand for. -/
  handles : Handles
  /-- The anchors that the aliases among the tokens stand for. -/
  targets : List Nat
  /-- How many anchors were met. -/
  count : Nat := 0
  /-- The nodes that they were put on. -/
  anchored : Anchored := []

namespace Rest

/-- The rest without its first token. -/
def tail (r : Rest) : Rest := { r with tokens := r.tokens.tail }

/-- The rest starts with one of the given tokens, or has ended. -/
def atOneOf (r : Rest) (ts : List Token) : Bool :=
  match r.tokens with
  | [] => true
  | t :: _ => ts.contains t

/-- The rest behind an anchor. -/
def passAnchor (r : Rest) : Rest := { r.tail with count := r.count + 1 }

/-- The node that the anchor at a place was put on. -/
def record (r : Rest) (place : Nat) (node : Node) : Rest :=
  { r with anchored := (place, node) :: r.anchored }

end Rest

/-- What is put on a node: an anchor, by its place, and a tag. -/
structure Properties where
  anchor : Option Nat := none
  tag : Option Tag := none

/-- Something is put on the node. -/
def Properties.given (p : Properties) : Bool := p.anchor.isSome || p.tag.isSome

/-- What is put on the node to come, in either order, and the rest behind it; none if a tag's
handle stands for nothing. -/
def Rest.properties? (r : Rest) : Option (Properties × Rest) :=
  match r.tokens with
  | .anchor _ :: .tag t :: _ =>
      (t.resolve? r.handles).map fun tag => (⟨some r.count, some tag⟩, r.passAnchor.tail)
  | .tag t :: .anchor _ :: _ =>
      (t.resolve? r.handles).map fun tag => (⟨some r.count, some tag⟩, r.tail.passAnchor)
  | .anchor _ :: _ => some (⟨some r.count, none⟩, r.passAnchor)
  | .tag t :: _ => (t.resolve? r.handles).map fun tag => (⟨none, some tag⟩, r.tail)
  | _ => some ({}, r)

/-- The rest with a node recorded for the anchor put on it, if there is one. -/
def Properties.record (p : Properties) (node : Node) (r : Rest) : Rest :=
  match p.anchor with
  | some place => r.record place node
  | none => r

/-- Where a node stands. -/
structure Place where
  /-- Blocks may begin here. -/
  block : Bool
  /-- A sequence may begin here without being indented. -/
  flush : Bool

/-- An entry of a block. -/
def Place.entry : Place := ⟨true, false⟩

/-- The key or value of a block mapping. -/
def Place.pair : Place := ⟨true, true⟩

/-- Inside of brackets. -/
def Place.bracket : Place := ⟨false, false⟩

mutual
/-- A node with what is put on it, or an alias. -/
def read : (fuel : Nat) → Place → Rest → Option (Node × Rest)
  | 0, _, _ => none
  | fuel + 1, place, r =>
      match r.tokens with
      | .alias _ :: _ =>
          match r.targets with
          | [] => none
          | target :: others => some (.alias target, { r.tail with targets := others })
      | _ =>
          match r.properties? with
          | none => none
          | some (p, r) =>
              (readContent fuel place p r).map fun (node, r) => (node, p.record node r)
/-- A node behind what is put on it; with something put on it the node itself may be left out. -/
def readContent : (fuel : Nat) → Place → Properties → Rest → Option (Node × Rest)
  | 0, _, _, _ => none
  | fuel + 1, place, p, r =>
      let missing := if p.given then some (omitted p.tag, r) else none
      match r.tokens with
      | .scalar style text :: _ => some (.scalar ⟨p.tag, style, text⟩, r.tail)
      | .flowSequenceStart :: _ =>
          (readFlowItems fuel true r.tail).map fun (items, r) => (.sequence p.tag items, r)
      | .flowMappingStart :: _ =>
          (readFlowPairs fuel true r.tail).map fun (entries, r) => (.mapping p.tag entries, r)
      | .blockSequenceStart :: _ =>
          if place.block then
            (readEntries fuel false r.tail).map fun (items, r) => (.sequence p.tag items, r)
          else missing
      | .blockMappingStart :: _ =>
          if place.block then
            (readPairs fuel r.tail).map fun (entries, r) => (.mapping p.tag entries, r)
          else missing
      | .blockEntry :: _ =>
          if place.flush then
            (readEntries fuel true r).map fun (items, r) => (.sequence p.tag items, r)
          else missing
      | _ => missing
/-- A node, unless one of the given tokens or the end stands in its place. -/
def readUnless : (fuel : Nat) → List Token → Place → Rest → Option (Node × Rest)
  | 0, _, _, _ => none
  | fuel + 1, ends, place, r => if r.atOneOf ends then some (omitted none, r) else read fuel place r
/-- The entries of a block sequence; one that is not indented ends without a token. -/
def readEntries : (fuel : Nat) → (flush : Bool) → Rest → Option (List Node × Rest)
  | 0, _, _ => none
  | fuel + 1, flush, r =>
      match r.tokens with
      | .blockEntry :: _ =>
          let ends : List Token :=
            if flush then [.blockEntry, .key, .value, .blockEnd] else [.blockEntry, .blockEnd]
          match readUnless fuel ends .entry r.tail with
          | none => none
          | some (item, r) => (readEntries fuel flush r).map fun (items, r) => (item :: items, r)
      | .blockEnd :: _ => some ([], if flush then r else r.tail)
      | _ => if flush then some ([], r) else none
/-- The pairs of a block mapping. -/
def readPairs : (fuel : Nat) → Rest → Option (List (Node × Node) × Rest)
  | 0, _ => none
  | fuel + 1, r =>
      match r.tokens with
      | .key :: _ =>
          match readUnless fuel [.key, .value, .blockEnd] .pair r.tail with
          | none => none
          | some (key, r) =>
              match readValue fuel [.key, .value, .blockEnd] .pair r with
              | none => none
              | some (value, r) =>
                  (readPairs fuel r).map fun (entries, r) => ((key, value) :: entries, r)
      | .blockEnd :: _ => some ([], r.tail)
      | _ => none
/-- The value of a key, if one is marked. -/
def readValue : (fuel : Nat) → List Token → Place → Rest → Option (Node × Rest)
  | 0, _, _, _ => none
  | fuel + 1, ends, place, r =>
      match r.tokens with
      | .value :: _ => readUnless fuel ends place r.tail
      | _ => some (omitted none, r)
/-- The items of a sequence in brackets, with commas between them and maybe behind the last. -/
def readFlowItems : (fuel : Nat) → (first : Bool) → Rest → Option (List Node × Rest)
  | 0, _, _ => none
  | fuel + 1, first, r =>
      let start : Option Rest :=
        match r.tokens with
        | .flowSequenceEnd :: _ => some r
        | .flowEntry :: _ => if first then some r else some r.tail
        | _ => if first then some r else none
      match start with
      | none => none
      | some r =>
          match r.tokens with
          | .flowSequenceEnd :: _ => some ([], r.tail)
          | .key :: _ =>
              let ends : List Token := [.value, .flowEntry, .flowSequenceEnd]
              let r := r.tail
              let key := if r.atOneOf ends then some (omitted none, r.tail) else read fuel .bracket r
              match key with
              | none => none
              | some (key, r) =>
                  match readValue fuel [.flowEntry, .flowSequenceEnd] .bracket r with
                  | none => none
                  | some (value, r) =>
                      (readFlowItems fuel false r).map fun (items, r) =>
                        (.mapping none [(key, value)] :: items, r)
          | _ =>
              match read fuel .bracket r with
              | none => none
              | some (item, r) => (readFlowItems fuel false r).map fun (items, r) => (item :: items, r)
/-- The pairs of a mapping in braces, with commas between them and maybe behind the last. -/
def readFlowPairs : (fuel : Nat) → (first : Bool) → Rest → Option (List (Node × Node) × Rest)
  | 0, _, _ => none
  | fuel + 1, first, r =>
      let start : Option Rest :=
        match r.tokens with
        | .flowMappingEnd :: _ => some r
        | .flowEntry :: _ => if first then some r else some r.tail
        | _ => if first then some r else none
      match start with
      | none => none
      | some r =>
          match r.tokens with
          | .flowMappingEnd :: _ => some ([], r.tail)
          | .key :: _ =>
              match readUnless fuel [.value, .flowEntry, .flowMappingEnd] .bracket r.tail with
              | none => none
              | some (key, r) =>
                  match readValue fuel [.flowEntry, .flowMappingEnd] .bracket r with
                  | none => none
                  | some (value, r) =>
                      (readFlowPairs fuel false r).map fun (entries, r) => ((key, value) :: entries, r)
          | _ =>
              match read fuel .bracket r with
              | none => none
              | some (key, r) =>
                  (readFlowPairs fuel false r).map fun (entries, r) => ((key, omitted none) :: entries, r)
end

/-- The handles that a document declares, behind the given ones, and its tokens from its start
on. The version may be given once, and each handle. -/
def readDirectives : (versioned : Bool) → Handles → List Token → Option (Handles × List Token)
  | false, handles, .version :: ts => readDirectives true handles ts
  | versioned, handles, .handle name start :: ts =>
      if handles.any fun h => h.1 == name then none
      else readDirectives versioned (handles ++ [(name, start)]) ts
  | _, handles, .documentStart :: ts => some (handles, ts)
  | _, _, _ => none

/-- The handles of a document, the declared ones first, and its content; none if there is no
document. -/
def readStart : List Token → Option (Handles × List Token)
  | [] => none
  | t :: ts =>
      let marked :=
        match t with
        | .version | .handle _ _ | .documentStart => true
        | _ => false
      if marked then
        (readDirectives false [] (t :: ts)).map fun (handles, ts) => (handles ++ knownHandles, ts)
      else some (knownHandles, t :: ts)

end Node

/-- A document: its node, and the nodes that its aliases may stand for. -/
structure Tree where
  root : Node
  anchored : Node.Anchored

namespace Tree

/-- The one document of a list of tokens. -/
def ofTokens? (ts : List Token) : Option Tree :=
  match targets? ts, Node.readStart ts with
  | some targets, some (handles, ts) =>
      let fuel := 4 * ts.length + 8
      let start : Node.Rest := { tokens := ts, handles := handles, targets := targets }
      match Node.readUnless fuel [.documentStart, .documentEnd] .entry start with
      | none => none
      | some (node, r) =>
          if (r.tokens.dropWhile (· == .documentEnd)).isEmpty then some ⟨node, r.anchored⟩ else none
  | _, _ => none

/-- The one document of a text. -/
def parse? (source : String) : Option Tree := (tokens? source.toList).bind ofTokens?

end Tree

end Collate.Yaml
