/-!
# Lines and segments

A text is cut at single characters. `lines` cuts at line feeds and drops one carriage
return before each; a text that ends with a line feed has no empty line after it.
-/

set_option autoImplicit false

namespace Collate.Text

/-- The pieces of a text between the occurrences of `sep`: one more than there are of them. -/
def splitAt (sep : Char) : List Char → List (List Char)
  | [] => [[]]
  | c :: cs =>
      if c = sep then [] :: splitAt sep cs
      else
        match splitAt sep cs with
        | [] => [[c]]
        | piece :: pieces => (c :: piece) :: pieces

/-- Pieces put together with `sep` between neighbours. -/
def joinWith (sep : Char) : List (List Char) → List Char
  | [] => []
  | [piece] => piece
  | piece :: pieces => piece ++ sep :: joinWith sep pieces

/-- A line without the carriage return that ends it. -/
def dropReturn : List Char → List Char
  | [] => []
  | ['\r'] => []
  | c :: cs => c :: dropReturn cs

/-- All pieces but the last lose their carriage return; an empty last piece is no line. -/
def closeLines : List (List Char) → List (List Char)
  | [] => []
  | [last] => if last.isEmpty then [] else [last]
  | line :: rest => dropReturn line :: closeLines rest

/-- The lines of a text. -/
def lines (cs : List Char) : List (List Char) :=
  closeLines (splitAt '\n' cs)

end Collate.Text
