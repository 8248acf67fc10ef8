/-!
# Help texts

Help is given on the program or on one of its commands: what it is for, how it is called, and
the commands or options that it has. Where an option's description would not fit beside the
widest option, all descriptions stand on lines of their own.
-/

set_option autoImplicit false

namespace Collate.Command

/-- What help is asked for. -/
inductive Topic where
  | program
  | run
  | validate
  | explain
  | help
  deriving DecidableEq, Repr

namespace Topic

/-- The command with a name, as a topic. -/
def ofName? (name : String) : Option Topic :=
  [("run", Topic.run), ("validate", .validate), ("explain", .explain), ("help", .help)].lookup name

/-- What the topic is for. -/
def purpose : Topic → String
  | .program => "Group, order, and join JSON records with a YAML query"
  | .run => "Execute a query and print the result as a JSON array"
  | .validate => "Validate a query YAML file without reading any data"
  | .explain => "Show the step chain of a query"
  | .help => "Print this message or the help of the given subcommand(s)"

/-- How the topic is called. -/
def usage : Topic → String
  | .program => "seqops <COMMAND>"
  | .run => "seqops run [OPTIONS] --query <QUERY> --input <INPUT>"
  | .validate => "seqops validate --query <QUERY>"
  | .explain => "seqops explain --query <QUERY>"
  | .help => "seqops help [COMMAND]"

/-- The lines on the commands. -/
def commandLines : List String :=
  ["", "Commands:",
    "  run       " ++ purpose .run,
    "  validate  " ++ purpose .validate,
    "  explain   " ++ purpose .explain,
    "  help      " ++ purpose .help]

/-- The lines on the one option of a command that only takes a query. -/
def queryLines : List String :=
  ["", "Options:",
    "  -q, --query <QUERY>  Path to the query YAML file",
    "  -h, --help           Print help"]

/-- The lines on the options of a run. -/
def runLines : List String :=
  ["", "Options:",
    "  -q, --query <QUERY>",
    "          Path to the query YAML file",
    "  -i, --input <INPUT>",
    "          Input records (JSON array or JSON lines)",
    "      --inner <NAME=FILE>",
    "          Named dataset for join steps, as NAME=FILE (repeatable)",
    "      --initial-buckets <INITIAL_BUCKETS>",
    "          Initial lookup bucket count (overrides config)",
    "      --buffer-seed <BUFFER_SEED>",
    "          Seed capacity for buffering unsized inputs (overrides config)",
    "      --pretty",
    "          Pretty-print the output",
    "  -h, --help",
    "          Print help"]

/-- The lines on what the topic has. -/
def details : Topic → List String
  | .program => commandLines ++ ["", "Options:", "  -h, --help  Print help"]
  | .run => runLines
  | .validate => queryLines
  | .explain => queryLines
  | .help => commandLines

/-- The help on a topic. -/
def text (t : Topic) : String :=
  ([t.purpose, "", "Usage: " ++ t.usage] ++ t.details).foldl (fun text line => text ++ line ++ "\n") ""

end Topic

end Collate.Command
