import Collate.Json.Basic
import Collate.Query.Basic

/-!
# Queries as JSON

A query is written with every field of every step; sizes and elements that are not set are
null.
-/

set_option autoImplicit false

namespace Collate.Query

/-- A natural number, or null. -/
def optionalNumber : Option Nat → Json
  | some n => .number (.int n)
  | none => .null

/-- A text, or null. -/
def optionalString : Option String → Json
  | some s => .string s
  | none => .null

def OrderLevel.toJson (l : OrderLevel) : Json :=
  .ofFields [("key", .string l.key), ("descending", .bool l.descending),
    ("ignore_case", .bool l.ignoreCase)]

def JoinSpec.toJson (name : String) (s : JoinSpec) : Json :=
  .ofFields [("op", .string name), ("inner", .string s.inner), ("outer_key", .string s.outerKey),
    ("inner_key", .string s.innerKey), ("into", .string s.into),
    ("ignore_case", .bool s.ignoreCase)]

def Step.toJson : Step → Json
  | .group key element ignoreCase =>
      .ofFields [("op", .string "group"), ("key", .string key),
        ("element", optionalString element), ("ignore_case", .bool ignoreCase)]
  | .order levels =>
      .ofFields [("op", .string "order"), ("levels", .array (levels.map OrderLevel.toJson))]
  | .join s => s.toJson "join"
  | .groupJoin s => s.toJson "group_join"

def Tuning.toJson (t : Tuning) : Json :=
  .ofFields [("initial_bucket_count", optionalNumber t.initialBuckets),
    ("buffer_seed_capacity", optionalNumber t.bufferSeed)]

def toJson (q : Query) : Json :=
  .ofFields [("config", match q.tuning with | some t => t.toJson | none => .null),
    ("steps", .array (q.steps.map Step.toJson))]

end Collate.Query
