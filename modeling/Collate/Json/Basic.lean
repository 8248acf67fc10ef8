import Collate.Floating.Rounding

/-!
# JSON values

Numbers keep what they were written as: an integer, or a finite number of the 64-bit
format. The fields of an object are listed by increasing name, each name once; `Sorted` says
so of a value and everything in it, and `insertField` keeps it.
-/

set_option autoImplicit false

namespace Collate

/-- A JSON number. -/
inductive Number where
  | int (value : Int)
  | float (value : Double)
  deriving DecidableEq, Repr

/-- A JSON value. -/
inductive Json where
  | null
  | bool (value : Bool)
  | number (value : Number)
  | string (value : String)
  | array (items : List Json)
  | object (fields : List (String × Json))
  deriving Inhabited

namespace Json

/-- The value of a field. -/
def fieldOf? (name : String) : List (String × Json) → Option Json
  | [] => none
  | (k, v) :: rest => if k = name then some v else fieldOf? name rest

/-- A field put in its place among the others, in place of one of the same name. -/
def insertField (name : String) (value : Json) : List (String × Json) → List (String × Json)
  | [] => [(name, value)]
  | (k, v) :: rest =>
      match compare name k with
      | .lt => (name, value) :: (k, v) :: rest
      | .eq => (name, value) :: rest
      | .gt => (k, v) :: insertField name value rest

/-- An object of fields as they are written; of two with one name the later counts. -/
def ofFields (fields : List (String × Json)) : Json :=
  .object (fields.foldl (fun acc f => insertField f.1 f.2 acc) [])

def isObject : Json → Bool
  | .object _ => true
  | _ => false

/-- Names in increasing order, each once. -/
def Increasing : List (String × Json) → Prop
  | [] => True
  | [_] => True
  | (a, _) :: (b, v) :: rest => compare a b = .lt ∧ Increasing ((b, v) :: rest)

mutual
/-- Every object in a value lists its fields by increasing name. -/
def Sorted : Json → Prop
  | .array items => SortedItems items
  | .object fields => Increasing fields ∧ SortedFields fields
  | _ => True
/-- `Sorted` for each of some values. -/
def SortedItems : List Json → Prop
  | [] => True
  | item :: rest => Sorted item ∧ SortedItems rest
/-- `Sorted` for the value of each of some fields. -/
def SortedFields : List (String × Json) → Prop
  | [] => True
  | (_, value) :: rest => Sorted value ∧ SortedFields rest
end

end Json

end Collate
