import HornLoops.Shell.Arguments
import HornLoops.Shell.Session

/-!
# The command line

Carries out sessions of the shell on the terminal. What a session writes is shown as soon as it has responded.
-/

namespace HornLoops.Shell

/-- The bound for searches, which no search reaches. -/
def searchBound : Nat := Nat.pow 2 62

/-- The description of the arguments. -/
def usageText : String :=
  "Usage: hornloops [OPTIONS]

Options:
  -l, --load <FILE>      Consult a program file before anything else (repeatable)
  -e, --exec <QUERY>     Answer the provided query and exit (non-interactive)
  -f, --file <FILE>      Answer every query in the provided file and exit, one per line
      --interpret        Run loops directly instead of generating procedures
      --no-expand        Compile loops only when they are called
  -1, --once             Stop after the first answer of each query
      --depth-limit <N>  Maximum call depth
      --listing          Print the generated loop procedures before exiting
  -h, --help             Print help
  -V, --version          Print version"

/-- The version of the program. -/
def versionText : String := "hornloops 0.1.0"

/-- What is wrong with the arguments. -/
def ArgumentFault.text : ArgumentFault → String
  | .unknownArgument => "unexpected argument"
  | .invalidValue => "a value is required"
  | .valueValidation => "invalid value"
  | .argumentConflict => "an argument cannot be used multiple times"
  | .tooManyValues => "unexpected value"
  | .displayHelp => usageText
  | .displayVersion => versionText

/-- The text of a file. -/
def fileText (path : String) : IO (Except String String) := do
  try
    return .ok (← IO.FS.readFile path)
  catch error =>
    match error with
    | .noFileOrDirectory .. => return .error "No such file or directory (os error 2)"
    | other => return .error (toString other)

/-- The texts of some files. -/
def filesAt (paths : List String) : IO Files := do
  let texts ← paths.mapM fileText
  return fun path => ((paths.zip texts).lookup path).getD (.error "not read")

/-- Carries out a part of a session and shows what it writes. -/
def present (talk : Talk Unit) (session : Session) : IO (Option Failure × Session) := do
  let (failure, session) :=
    match talk session with
    | .ok _ session => (none, session)
    | .error failure session => (some failure, session)
  IO.print session.transcript
  (← IO.getStdout).flush
  return (failure, { session with transcript := "" })

/-- Responds to the lines of an input. -/
partial def listen (options : Options) (input : IO.FS.Stream) (session : Session) : IO Session := do
  let line ← input.getLine
  if line.isEmpty then return session
  match Text.trim line with
  | "" => listen options input session
  | line =>
    match Command.ofLine line with
    | .quit => return session
    | command =>
      let files ←
        match command with
        | .consult path => filesAt [path]
        | _ => filesAt []
      let (_, session) ← present (respond searchBound files options.once command) session
      listen options input session

/-- Carries out a session and answers whether it failed. -/
def serve (options : Options) : IO (Option Failure) := do
  let files ← filesAt (options.load ++ options.file.toList)
  let (failure, session) ←
    present (openSession searchBound options files) (.start options)
  if failure.isSome then return failure
  let session ← if options.listens then listen options (← IO.getStdin) session else pure session
  return (← present (closeSession options) session).1

end HornLoops.Shell

open HornLoops.Shell in
/-- Starts the shell with the arguments of the command line. -/
def main (arguments : List String) : IO UInt32 := do
  match Options.ofArguments arguments with
  | .error fault =>
    if fault = .displayHelp ∨ fault = .displayVersion then
      IO.println fault.text
      return 0
    IO.eprintln ("error: " ++ fault.text)
    return 2
  | .ok options =>
    match ← serve options with
    | none => return 0
    | some failure =>
      IO.eprintln ("Error: " ++ failure.message)
      return 1
