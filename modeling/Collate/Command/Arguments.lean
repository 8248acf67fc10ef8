import Collate.Command.Help
import Collate.Text.Numeral

/-!
# Command lines

A command line names a command and gives options in any order. An option's value stands
behind it as the next argument, or behind an equals sign, or directly behind the letter of a
short one. An option may be given once, the datasets' option as often as wanted. Help may be
asked for in place of a command, or among its options: what stands behind is not looked at
then, and options may be missing.
-/

set_option autoImplicit false

namespace Collate

namespace Command

/-- What a run of a query is told. -/
structure RunArguments where
  query : String
  input : String
  /-- Datasets, each as a name and a file with an equals sign between them. -/
  inner : List String
  initialBuckets : Option Nat
  bufferSeed : Option Nat
  pretty : Bool
  deriving DecidableEq, Repr

end Command

/-- A command with its arguments. -/
inductive Command where
  | run (arguments : Command.RunArguments)
  | validate (query : String)
  | explain (query : String)
  deriving DecidableEq, Repr

namespace Command

/-- What a command line asks for. -/
inductive Request where
  | command (command : Command)
  | help (topic : Topic)
  deriving DecidableEq, Repr

/-- The options of the commands. -/
inductive Key where
  | query
  | input
  | inner
  | initialBuckets
  | bufferSeed
  | pretty
  deriving DecidableEq, Repr

namespace Key

/-- The option with a long name. -/
def ofLong? (name : String) : Option Key :=
  [("query", Key.query), ("input", .input), ("inner", .inner), ("initial-buckets", .initialBuckets),
    ("buffer-seed", .bufferSeed), ("pretty", .pretty)].lookup name

/-- The option with a letter. -/
def ofShort? (letter : Char) : Option Key := [('q', Key.query), ('i', .input)].lookup letter

/-- The option stands alone. -/
def isFlag (k : Key) : Bool := k == .pretty

end Key

/-- An argument that reads as an option, and so not as a value. -/
def looksLikeOption (argument : String) : Bool :=
  match argument.toList with
  | '-' :: _ :: _ => true
  | _ => false

/-- An argument taken apart: an option with the value attached to it, if there is one; the
option that asks for help; the end of options; or none of them. -/
inductive Reading where
  | option (key : Key) (attached : Option String)
  | help
  | endOfOptions
  | neither

/-- A long option without its dashes. -/
def readLong (cs : List Char) : Reading :=
  let name := String.ofList (cs.takeWhile (· != '='))
  let attached :=
    match cs.dropWhile (· != '=') with
    | [] => none
    | _ :: value => some (String.ofList value)
  match Key.ofLong? name with
  | some key => .option key attached
  | none => .neither

/-- What an argument is. -/
def readArgument (argument : String) : Reading :=
  match argument.toList with
  | ['-', '-'] => .endOfOptions
  | ['-', '-', 'h', 'e', 'l', 'p'] => .help
  | '-' :: '-' :: cs => readLong cs
  | '-' :: 'h' :: _ => .help
  | '-' :: letter :: cs =>
      match Key.ofShort? letter with
      | none => .neither
      | some key =>
          match cs with
          | [] => .option key none
          | '=' :: value => .option key (some (String.ofList value))
          | value => .option key (some (String.ofList value))
  | _ => .neither

/-- An option given, with its value. -/
abbrev Given := Key × String

/-- Options, and whether help was asked for behind them. -/
structure Options where
  given : List Given := []
  help : Bool := false

/-- One more option in front of others. -/
def Options.push (key : Key) (value : String) (o : Options) : Options :=
  { o with given := (key, value) :: o.given }

/-- The options given in a list of arguments, if it holds nothing else. -/
def options? (allowed : List Key) : List String → Option Options
  | [] => some {}
  | argument :: rest =>
      match readArgument argument with
      | .neither => none
      | .help => some { help := true }
      | .endOfOptions => if rest.isEmpty then some {} else none
      | .option key attached =>
          if !allowed.contains key then none
          else if key.isFlag then
            if attached.isSome then none else (options? allowed rest).map (·.push key "")
          else
            match attached, rest with
            | some value, rest => (options? allowed rest).map (·.push key value)
            | none, value :: rest =>
                if looksLikeOption value then none
                else (options? allowed rest).map (·.push key value)
            | none, [] => none

/-- The values given for an option. -/
def valuesOf (key : Key) (given : List Given) : List String :=
  (given.filter fun g => g.1 == key).map Prod.snd

/-- The value of an option that may be given once. -/
def optional? (key : Key) (given : List Given) : Option (Option String) :=
  match valuesOf key given with
  | [] => some none
  | [value] => some (some value)
  | _ => none

/-- The value of an option that may be given once, a file's path. -/
def optionalPath? (key : Key) (given : List Given) : Option (Option String) :=
  match optional? key given with
  | some (some value) => if value.isEmpty then none else some (some value)
  | other => other

/-- The value of an option that must be given, a file's path. -/
def path? (key : Key) (given : List Given) : Option String :=
  match optionalPath? key given with
  | some path => path
  | none => none

/-- The value of an option that may be given once, a machine word. -/
def word? (key : Key) (given : List Given) : Option (Option Nat) :=
  match optional? key given with
  | some (some value) => (Text.word? value.toList).map some
  | some none => some none
  | none => none

/-- The arguments of a run. -/
def runArguments? (given : List Given) : Option RunArguments :=
  match path? .query given, path? .input given, word? .initialBuckets given, word? .bufferSeed given,
    optional? .pretty given with
  | some query, some input, some initialBuckets, some bufferSeed, some pretty =>
      some ⟨query, input, valuesOf .inner given, initialBuckets, bufferSeed, pretty.isSome⟩
  | _, _, _, _, _ => none

/-- Options are given as often as they may be, with values that they can have. -/
def fits (given : List Given) : Bool :=
  (optionalPath? .query given).isSome && (optionalPath? .input given).isSome &&
    (word? .initialBuckets given).isSome && (word? .bufferSeed given).isSome &&
    (optional? .pretty given).isSome

/-- What some options ask for: help on a topic, or a command made of them. -/
def request? (topic : Topic) (make : List Given → Option Command) (o : Options) : Option Request :=
  if o.help then (if fits o.given then some (.help topic) else none)
  else (make o.given).map .command

/-- The topic of a request for help, from the names behind its word. -/
def topic? : List String → Option Topic
  | [] => some .program
  | [name] => Topic.ofName? name
  | _ => none

/-- What a command line asks for. -/
def ofArguments? : List String → Option Request
  | [] => none
  | name :: rest =>
      if name = "run" then
        (options? [.query, .input, .inner, .initialBuckets, .bufferSeed, .pretty] rest).bind
          (request? .run fun given => (runArguments? given).map .run)
      else if name = "validate" then
        (options? [.query] rest).bind
          (request? .validate fun given => (path? .query given).map .validate)
      else if name = "explain" then
        (options? [.query] rest).bind
          (request? .explain fun given => (path? .query given).map .explain)
      else if name = "help" then (topic? rest).map .help
      else
        match readArgument name with
        | .help => some (.help .program)
        | _ => none

end Command

end Collate
