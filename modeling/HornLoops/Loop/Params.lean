import HornLoops.Loop.Spec

/-!
# Parameters of loops

A body variable that also occurs around the loop means the same in all iterations, so it has to be handed on
from one to the next. Which variables these are follows from the loop and its surroundings; a declaration by
`param` that says otherwise is worth a diagnostic, but it is not an error.
-/

namespace HornLoops

namespace LoopSpec

/-- The variables that a loop shares with its surroundings: variables of the body that are not local and
occur around the loop or in a term that is looked at once, and declared parameters that occur around the
loop. -/
def shared (spec : LoopSpec) (body : Term) (outside : VarSet) : VarSet :=
  let used := body.vars.filter fun id =>
    id ∉ spec.localVars && (id ∈ outside || id ∈ spec.globalVars)
  VarSet.extend used (spec.declared.filter (· ∈ outside))

end LoopSpec

/-- How declared parameters differ from the shared variables. -/
structure ParamMismatch where
  /-- Shared variables that are not declared. -/
  undeclared : List Nat
  /-- Declared variables that are not shared. -/
  unshared : List Nat
deriving DecidableEq, Repr

/-- Compares the shared variables with the declared ones. A loop that declares nothing leaves the choice
open. -/
def paramMismatch? (shared declared : VarSet) : Option ParamMismatch :=
  let undeclared := shared.without declared
  let unshared := declared.without shared
  if declared.isEmpty || (undeclared.isEmpty && unshared.isEmpty) then none
  else some ⟨undeclared, unshared⟩

/-- A finding about the parameters of a loop. -/
structure Diagnostic where
  /-- The procedure of the loop, or `do` for a loop that is kept as a goal. -/
  procedure : String
  /-- The difference that was found. -/
  mismatch : ParamMismatch
deriving DecidableEq, Repr

namespace Diagnostic

/-- The findings about one loop. -/
def ofMismatch (procedure : String) (mismatch : Option ParamMismatch) : List Diagnostic :=
  (mismatch.map (⟨procedure, ·⟩)).toList

end Diagnostic

end HornLoops
