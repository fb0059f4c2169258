import HornLoops.Machine.Session
import HornLoops.Shell.Options
import HornLoops.Text.Line

/-!
# Sessions of the shell

A session works with one machine and writes a transcript. After each text that is consulted and each query
that is answered, it writes what the machine has written and warned about. If one of them fails, that is left
with the machine.
-/

namespace HornLoops.Shell

/-- The texts of files, or why they cannot be read. -/
abbrev Files := String → Except String String

/-- Why a session failed. -/
inductive Failure where
  /-- A file cannot be read. -/
  | reading (path cause : String)
  /-- A file cannot be consulted. -/
  | consulting (path : String) (stop : Stop)
  /-- A query cannot be answered. -/
  | answering (stop : Stop)
deriving DecidableEq, Repr

namespace Failure

/-- The wording of a failure. -/
def message : Failure → String
  | .reading path cause => "reading " ++ path ++ ": " ++ cause
  | .consulting path stop => "consulting " ++ path ++ ": " ++ stop.message
  | .answering stop => stop.message

end Failure

/-- A machine and what was written so far. -/
structure Session where
  /-- The machine. -/
  machine : Machine
  /-- What was written so far. -/
  transcript : String := ""

/-- A part of a session, which may fail. -/
abbrev Talk := EStateM Failure Session

namespace Talk

/-- Writes a text. -/
def say (text : String) : Talk Unit := modify fun session =>
  { session with transcript := session.transcript ++ text }

/-- Writes a text on a line of its own. -/
def sayLine (text : String) : Talk Unit := say (text ++ "\n")

/-- Lets the machine work. -/
def work {α : Type} (wrap : Stop → Failure) (action : Run α) : Talk α := fun session =>
  match action session.machine with
  | .ok value machine => .ok value { session with machine := machine }
  | .error stop machine => .error (wrap stop) { session with machine := machine }

/-- The text of a file. -/
def readFile (files : Files) (path : String) : Talk String :=
  match files path with
  | .ok text => return text
  | .error cause => throw (.reading path cause)

end Talk

/-- What a machine has written, closed by a line feed, and its warnings. -/
def pendingText (machine : Machine) : String :=
  let output := machine.output
  let close := if output = "" ∨ output.toList.getLast? = some '\n' then "" else "\n"
  output ++ close
    ++ String.join (machine.warnings.map fun warning => "warning: " ++ warning.text ++ "\n")

/-- Writes what the machine has written and warned about, and takes it from the machine. -/
def flush : Talk Unit := modify fun session =>
  { machine := session.machine.clearOutput.clearWarnings
    transcript := session.transcript ++ pendingText session.machine }

/-- The text for the answers to a query. -/
def answersText : List Answer → String
  | [] => "false.\n"
  | answers => String.join (answers.map fun answer => answer.text ++ ".\n")

/-- Adds the clauses of a file to the program. -/
def consultFile (fuel : Nat) (files : Files) (path : String) : Talk Unit := do
  let text ← Talk.readFile files path
  let _ ← Talk.work (.consulting path) (Machine.consult fuel text)
  flush

/-- Answers a query, with all answers or only the first. -/
def answerQuery (fuel : Nat) (once : Bool) (query : String) : Talk Unit := do
  let answers ← Talk.work .answering
    (if once then return (← Machine.queryOnce fuel query).toList else Machine.query fuel query)
  flush
  Talk.say (answersText answers)

/-- Shows the procedures. -/
def showListing : Talk Unit := do
  Talk.say (String.join ((← get).machine.listing.map (· ++ "\n")))

/-- What a user can enter. -/
inductive Command where
  /-- End the session. -/
  | quit
  /-- Show the commands. -/
  | help
  /-- Show the procedures. -/
  | listing
  /-- Add the clauses of a file to the program. -/
  | consult (path : String)
  /-- Answer a query. -/
  | query (text : String)
deriving DecidableEq, Repr

/-- The command on a line, which is not empty and has no blanks around it. -/
def Command.ofLine (line : String) : Command :=
  match Text.splitSpace line with
  | (".quit", _) => .quit
  | (".help", _) => .help
  | (".listing", _) => .listing
  | (".consult", path) => .consult (Text.trim path)
  | _ => .query line

/-- The description of the commands. -/
def helpText : String :=
  "Available commands:
  .help - Show this help message
  .consult <file> - Add the clauses of a file to the program
  .listing - Show the generated loop procedures
  .quit - Exit the shell
  Anything else is read as a query, e.g. (for(I, 1, 3) do writeln(I))"

/-- Carries on after a failure, which is written. -/
def reporting (talk : Talk Unit) : Talk Unit :=
  tryCatch talk fun failure => Talk.sayLine ("error: " ++ failure.message)

/-- Does what the user entered. -/
def respond (fuel : Nat) (files : Files) (once : Bool) : Command → Talk Unit
  | .quit => return
  | .help => Talk.sayLine helpText
  | .listing => showListing
  | .consult path => reporting (consultFile fuel files path)
  | .query text => reporting (answerQuery fuel once text)

/-- Does what the user enters, line after line. -/
def converse (fuel : Nat) (files : Files) (once : Bool) : List String → Talk Unit
  | [] => return
  | line :: lines =>
    match Command.ofLine line with
    | .quit => return
    | command => do
      respond fuel files once command
      converse fuel files once lines

/-- Answers queries, each of them shown before its answers. -/
def answerAll (fuel : Nat) (once : Bool) : List String → Talk Unit
  | [] => return
  | query :: queries => do
    Talk.sayLine ("?- " ++ query)
    answerQuery fuel once query
    answerAll fuel once queries

/-- Consults files, one after the other. -/
def consultAll (fuel : Nat) (files : Files) : List String → Talk Unit
  | [] => return
  | path :: paths => do
    consultFile fuel files path
    consultAll fuel files paths

/-- Whether the options leave it to the user what to do. -/
def Options.listens (options : Options) : Bool := options.exec.isNone && options.file.isNone

/-- Does what the options ask for before the user is listened to. -/
def openSession (fuel : Nat) (options : Options) (files : Files) : Talk Unit := do
  consultAll fuel files options.load
  match options.exec, options.file with
  | some query, _ => answerQuery fuel options.once query
  | none, some path => answerAll fuel options.once (Text.lines (← Talk.readFile files path))
  | none, none => return

/-- Does what the options ask for at the end. -/
def closeSession (options : Options) : Talk Unit := do
  if options.listing then showListing

/-- A session in which the user enters some lines. -/
def session (fuel : Nat) (options : Options) (files : Files) (lines : List String) : Talk Unit := do
  openSession fuel options files
  if options.listens then converse fuel files options.once lines
  closeSession options

/-- The state in which a session starts. -/
def Session.start (options : Options) : Session := { machine := Machine.start options.settings {} }

/-- What a session writes for a given input, and its failure if it has one. -/
def run (fuel : Nat) (options : Options) (files : Files) (input : String) : String × Option Failure :=
  match session fuel options files (Text.lines input) (.start options) with
  | .ok _ session => (session.transcript, none)
  | .error failure session => (session.transcript, some failure)

end HornLoops.Shell
