import Collate.Query.Error
import Collate.Text.Bytes
import Collate.Text.Lines

/-!
# Files at paths

Files stand in directories, and a path is walked name by name: from the top if it begins with
a slash, and otherwise from the directory where the program runs. An empty name and a dot stay
where they are, two dots go up, and each of them needs a directory to stand in, as every other
name does.
-/

set_option autoImplicit false

namespace Collate.Command

open Collate.Query

/-- The names of directories on the way down from the top, and maybe of a file behind them. -/
abbrev Place := List String

/-- Files, and the directories that they and the program stand in. -/
structure FileTree where
  /-- What files hold, by their places; of two at one place the later counts. -/
  files : List (Place × String)
  /-- The directory where the program runs. -/
  here : Place

/-- What stands at a place. -/
inductive Entry where
  | file (text : String)
  | directory
  deriving DecidableEq, Repr

/-- How many bytes a name may take. -/
def nameLimit : Nat := 255

/-- How many bytes a path may take. -/
def pathLimit : Nat := 4095

/-- The names of a path. -/
def pathNames (path : String) : List String := (Text.splitAt '/' path.toList).map String.ofList

namespace FileTree

/-- What stands at a place, if anything does. -/
def entry? (t : FileTree) (place : Place) : Option Entry :=
  match t.files.reverse.lookup place with
  | some text => some (.file text)
  | none =>
      if (t.here :: t.files.map Prod.fst).any place.isPrefixOf then some .directory else none

/-- The place that a name leads to. -/
def step (t : FileTree) (place : Place) (name : String) : Except FileFault Place :=
  match t.entry? place with
  | some .directory =>
      if name = "" || name = "." then .ok place
      else if name = ".." then .ok place.dropLast
      else if nameLimit < (Text.utf8 name).length then .error .nameTooLong
      else
        match t.entry? (place ++ [name]) with
        | some _ => .ok (place ++ [name])
        | none => .error .notFound
  | some (.file _) => .error .notDirectory
  | none => .error .notFound

/-- The place that a path leads to. -/
def resolve (t : FileTree) (path : String) : Except FileFault Place :=
  if path.isEmpty then .error .notFound
  else if pathLimit < (Text.utf8 path).length then .error .nameTooLong
  else (pathNames path).foldlM t.step (if path.toList.head? = some '/' then [] else t.here)

/-- The text of the file at a path. -/
def read (t : FileTree) (path : String) : Except FileFault String :=
  match t.resolve path with
  | .error fault => .error fault
  | .ok place =>
      match t.entry? place with
      | some (.file text) => .ok text
      | some .directory => .error .isDirectory
      | none => .error .notFound

end FileTree

end Collate.Command
