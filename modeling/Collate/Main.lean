import Collate.Command.Outcome

/-!
# The command line program

Reads the files that the command names and the environment, and does what the command's
outcome says.
-/

set_option autoImplicit false

namespace Collate.Command

/-- The system's number for an error, which may come with its sign turned. -/
def systemNumber (code : UInt32) : Nat :=
  if code.toNat < 0x80000000 then code.toNat else (0 - code).toNat

/-- Why a file cannot be read. -/
def faultOf : IO.Error → Query.FileFault
  | .noFileOrDirectory _ _ _ => .notFound
  | .inappropriateType _ code _ =>
      if systemNumber code = 20 then .notDirectory else .isDirectory
  | .permissionDenied _ code _ =>
      .described ("Permission denied (os error " ++ toString (systemNumber code) ++ ")")
  | .invalidArgument _ code details =>
      if systemNumber code = 36 then .nameTooLong else .described details
  | other => .described other.toString

/-- The text of a file. -/
def readFile (path : String) : IO (Except Query.FileFault String) := do
  try
    let bytes ← IO.FS.readBinFile path
    pure (Query.decodeText bytes)
  catch e =>
    pure (.error (faultOf e))

/-- The files of a command with what is in them. -/
def readFiles (arguments : List String) : IO (List (String × Except Query.FileFault String)) :=
  match ofArguments? arguments with
  | none | some (.help _) => pure []
  | some (.command command) => (paths command).mapM fun path => do
      let text ← readFile path
      pure (path, text)

/-- Runs the command that the arguments give. -/
def runProgram (arguments : List String) : IO UInt32 := do
  let files ← readFiles arguments
  let buckets ← IO.getEnv "SEQOPS_INITIAL_BUCKETS"
  let seed ← IO.getEnv "SEQOPS_BUFFER_SEED"
  let world : World :=
    { file := fun path => (files.lookup path).getD (.error .notFound)
      setting := fun name =>
        if name == "SEQOPS_INITIAL_BUCKETS" then buckets
        else if name == "SEQOPS_BUFFER_SEED" then seed
        else none }
  let o := outcome world arguments
  (← IO.getStdout).putStr o.stdout
  (← IO.getStderr).putStr o.stderr
  pure o.exitCode.toUInt32

end Collate.Command

/-- The program. -/
def main (arguments : List String) : IO UInt32 := Collate.Command.runProgram arguments
