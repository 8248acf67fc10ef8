import Collate.Yaml.Token

/-!
# Anchors and aliases

An anchor puts a name on a node, and an alias stands for a node by its name. Names are known
by numbers: an anchor's number says how many different names were put on nodes before it, and
an alias asks for the number that its name was given last. A number stands for the last anchor
of the text that was given it. A name given a second time can so share its number with the
next new name, and an alias can stand for a node that comes after it or that it is part of.
-/

set_option autoImplicit false

namespace Collate.Yaml

/-- The names met so far, each once, with the numbers given to them last. -/
abbrev Numbering := List (List Char × Nat)

namespace Numbering

/-- The number that the next anchor is given. -/
def next (names : Numbering) : Nat := names.length

/-- A name put on a node. -/
def insert (names : Numbering) (name : List Char) : Numbering :=
  (name, names.next) :: names.filter fun known => known.1 != name

end Numbering

/-- The numbers given to the anchors among some tokens, and those that the aliases ask for, in
order, with the names met before them; none if an alias has a name that was not met. -/
def numbers? : Numbering → List Token → Option (List Nat × List Nat)
  | _, [] => some ([], [])
  | names, .anchor name :: ts =>
      (numbers? (names.insert name) ts).map fun (given, asked) => (names.next :: given, asked)
  | names, .alias name :: ts =>
      match names.lookup name with
      | none => none
      | some number => (numbers? names ts).map fun (given, asked) => (given, number :: asked)
  | names, _ :: ts => numbers? names ts

/-- The place of the last anchor that was given a number, among the numbers given. -/
def lastPlace (given : List Nat) (number : Nat) : Nat :=
  given.length - 1 - given.reverse.idxOf number

/-- For each alias in order the place, among all anchors, of the one that it stands for. -/
def targets? (ts : List Token) : Option (List Nat) :=
  (numbers? [] ts).map fun (given, asked) => asked.map (lastPlace given)

end Collate.Yaml
