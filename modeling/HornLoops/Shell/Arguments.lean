import HornLoops.Shell.Options
import HornLoops.Text.Decimal

/-!
# Arguments of the shell

An option has a long name and may have a short one, which is a single character. Short names can be written
together after one dash. The value of an option follows it as a word of its own or is attached to it, to a long
name by an equals sign, to a short name with or without one.

Arguments are taken from left to right. A value in a word of its own stays open until the next option is
recognized or the arguments end, and only then is it checked.
-/

namespace HornLoops.Shell

/-- Why arguments do not describe a session. -/
inductive ArgumentFault where
  /-- An option that does not exist, or a word that belongs to none. -/
  | unknownArgument
  /-- The value of an option is missing or is not a file name. -/
  | invalidValue
  /-- The value of an option is not a number that fits a machine word. -/
  | valueValidation
  /-- An option is given twice. -/
  | argumentConflict
  /-- A value is attached to an option that takes none. -/
  | tooManyValues
  /-- The user asks for help instead. -/
  | displayHelp
  /-- The user asks for the version instead. -/
  | displayVersion
deriving DecidableEq, Repr

/-- The options without a value. -/
inductive Flag where
  /-- Carry out loops directly. -/
  | interpret
  /-- Compile loops only when they are reached. -/
  | noExpand
  /-- Stop after the first answer. -/
  | once
  /-- Show the procedures at the end. -/
  | listing
  /-- Ask for help. -/
  | help
  /-- Ask for the version. -/
  | version
deriving DecidableEq, Repr

/-- The options with a value. -/
inductive Setting where
  /-- A file to consult. -/
  | load
  /-- A query to answer. -/
  | exec
  /-- A file with queries. -/
  | file
  /-- How deeply calls may be nested. -/
  | depthLimit
deriving DecidableEq, Repr

/-- The option with a long name. -/
def longOption? : String → Option (Flag ⊕ Setting)
  | "load" => some (.inr .load)
  | "exec" => some (.inr .exec)
  | "file" => some (.inr .file)
  | "depth-limit" => some (.inr .depthLimit)
  | "interpret" => some (.inl .interpret)
  | "no-expand" => some (.inl .noExpand)
  | "once" => some (.inl .once)
  | "listing" => some (.inl .listing)
  | "help" => some (.inl .help)
  | "version" => some (.inl .version)
  | _ => none

/-- The option with a short name. -/
def shortOption? : Char → Option (Flag ⊕ Setting)
  | 'l' => some (.inr .load)
  | 'e' => some (.inr .exec)
  | 'f' => some (.inr .file)
  | '1' => some (.inl .once)
  | 'h' => some (.inl .help)
  | 'V' => some (.inl .version)
  | _ => none

namespace Options

/-- Refuses an option that was given before. -/
def unlessGiven (given : Bool) (options : Options) : Except ArgumentFault Options :=
  if given then .error .argumentConflict else .ok options

/-- Adds an option without a value. -/
def withFlag (options : Options) : Flag → Except ArgumentFault Options
  | .interpret => unlessGiven options.interpret { options with interpret := true }
  | .noExpand => unlessGiven options.noExpand { options with noExpand := true }
  | .once => unlessGiven options.once { options with once := true }
  | .listing => unlessGiven options.listing { options with listing := true }
  | .help => .error .displayHelp
  | .version => .error .displayVersion

/-- The name of a file, which is not empty. -/
def fileName (value : String) : Except ArgumentFault String :=
  if value = "" then .error .invalidValue else .ok value

/-- A number of calls, which fits a machine word. -/
def depth (value : String) : Except ArgumentFault Nat :=
  match Text.natural? value with
  | some limit => if limit < Nat.pow 2 64 then .ok limit else .error .valueValidation
  | none => .error .valueValidation

/-- Adds an option with its value. -/
def withSetting (options : Options) (setting : Setting) (value : String) :
    Except ArgumentFault Options := do
  match setting with
  | .load => return { options with load := options.load ++ [← fileName value] }
  | .exec => unlessGiven options.exec.isSome { options with exec := some value }
  | .file =>
    let options ← unlessGiven options.file.isSome options
    return { options with file := some (← fileName value) }
  | .depthLimit =>
    let options ← unlessGiven options.depthLimit.isSome options
    return { options with depthLimit := some (← depth value) }

end Options

/-- The options so far, and the one whose value is still open or not yet checked. -/
structure Intake where
  /-- The options that are complete. -/
  options : Options := {}
  /-- The option that was given last, with its value if that has come. -/
  pending : Option (Setting × Option String) := none
deriving DecidableEq, Repr

namespace Intake

/-- Completes the option that is still open. -/
def settle (intake : Intake) : Except ArgumentFault Options :=
  match intake.pending with
  | none => .ok intake.options
  | some (_, none) => .error .invalidValue
  | some (setting, some value) => intake.options.withSetting setting value

/-- Takes an option without a value. -/
def takeFlag (intake : Intake) (flag : Flag) : Except ArgumentFault Intake := do
  return { options := ← (← intake.settle).withFlag flag }

/-- Takes an option with a value attached to it. -/
def takeAttached (intake : Intake) (setting : Setting) (value : String) :
    Except ArgumentFault Intake := do
  return { options := ← (← intake.settle).withSetting setting value }

/-- Takes an option whose value is to follow. -/
def takeOpen (intake : Intake) (setting : Setting) : Except ArgumentFault Intake := do
  return { options := ← intake.settle, pending := some (setting, none) }

/-- Takes a word that is not an option. It belongs to the option before it, if that waits for a value. -/
def takeWord (intake : Intake) (word : String) : Except ArgumentFault Intake :=
  match intake.pending with
  | some (setting, none) => .ok { intake with pending := some (setting, some word) }
  | _ => .error .unknownArgument

/-- Takes an option by its long name, with the characters that follow the name: none, or an equals sign and
a value. -/
def takeLong (intake : Intake) (name : String) (rest : List Char) : Except ArgumentFault Intake :=
  match longOption? name, rest with
  | none, _ => .error .unknownArgument
  | some (.inl flag), [] => intake.takeFlag flag
  | some (.inl _), _ :: _ => .error .tooManyValues
  | some (.inr setting), [] => intake.takeOpen setting
  | some (.inr setting), _ :: value => intake.takeAttached setting (String.ofList value)

/-- Takes options by their short names. What follows the name of an option with a value is its value. -/
def takeShort (intake : Intake) : List Char → Except ArgumentFault Intake
  | [] => .ok intake
  | name :: rest =>
    match shortOption? name, rest with
    | none, _ => .error .unknownArgument
    | some (.inl flag), rest => do (← intake.takeFlag flag).takeShort rest
    | some (.inr setting), [] => intake.takeOpen setting
    | some (.inr setting), '=' :: value => intake.takeAttached setting (String.ofList value)
    | some (.inr setting), value => intake.takeAttached setting (String.ofList value)

/-- Takes one argument. -/
def takeArgument (intake : Intake) (argument : String) : Except ArgumentFault Intake :=
  match argument.toList with
  | '-' :: '-' :: long =>
    intake.takeLong (String.ofList (long.takeWhile (· ≠ '='))) (long.dropWhile (· ≠ '='))
  | '-' :: name :: names => intake.takeShort (name :: names)
  | _ => intake.takeWord argument

/-- Takes all arguments. After two dashes there are no more options, so nothing may follow. -/
def takeAll (intake : Intake) : List String → Except ArgumentFault Options
  | [] => intake.settle
  | ["--"] => intake.settle
  | "--" :: _ :: _ => .error .unknownArgument
  | argument :: arguments => do (← intake.takeArgument argument).takeAll arguments

end Intake

/-- The options that arguments describe. -/
def Options.ofArguments (arguments : List String) : Except ArgumentFault Options :=
  Intake.takeAll {} arguments

end HornLoops.Shell
