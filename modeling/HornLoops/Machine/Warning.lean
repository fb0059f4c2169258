import HornLoops.Loop.Params

/-!
# Warnings

A warning tells the author of a program about a loop whose declared parameters differ from the variables it
shares. Variables are called by the names they have in the source, where they have one.
-/

namespace HornLoops

/-- A finding about the parameters of a loop, in the author's words. -/
structure LoopWarning where
  /-- The procedure of the loop. -/
  procedure : String
  /-- Shared variables that are not declared. -/
  undeclared : List String
  /-- Declared variables that are not shared. -/
  unshared : List String
deriving DecidableEq, Repr

namespace LoopWarning

/-- The name of a variable, or its number if it has none. -/
def nameOf (names : List (String × Nat)) (id : Nat) : String :=
  match names.find? fun (_, named) => named = id with
  | some (name, _) => name
  | none => varText id

/-- The warning for a diagnostic. -/
def ofDiagnostic (names : List (String × Nat)) (diagnostic : Diagnostic) : LoopWarning where
  procedure := diagnostic.procedure
  undeclared := diagnostic.mismatch.undeclared.map (nameOf names)
  unshared := diagnostic.mismatch.unshared.map (nameOf names)

/-- A part of a warning that is left out if it has nothing to list. -/
def listed (title : String) (names : List String) : String :=
  if names.isEmpty then "" else title ++ ", ".intercalate names

/-- The text of a warning. -/
def text (warning : LoopWarning) : String :=
  "loop " ++ nameText true warning.procedure ++ ": parameters differ from the shared variables"
    ++ listed "; undeclared: " warning.undeclared ++ listed "; not shared: " warning.unshared

end LoopWarning

end HornLoops
