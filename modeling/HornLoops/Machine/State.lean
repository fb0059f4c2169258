import HornLoops.Bindings.Unify
import HornLoops.Loop.Compile
import HornLoops.Machine.Program
import HornLoops.Machine.Warning

/-!
# The state of a machine

A machine has a program, the procedures of compiled loops, the bindings of the current run, and what was
written and warned about so far. A run may stop with an error; what it wrote, warned about and added to the
program or the procedures until then stays.
-/

namespace HornLoops

/-- How loops that are reached while running are carried out. -/
inductive LoopMode where
  /-- Through a procedure, which is made if there is none. -/
  | compiled
  /-- Directly from their plan. -/
  | interpreted
deriving DecidableEq, Repr

/-- The settings of a machine. -/
structure Settings where
  /-- How loops that are reached while running are carried out. -/
  mode : LoopMode := .compiled
  /-- Whether loops are compiled as soon as they are read. -/
  expandAhead : Bool := true
  /-- How deeply calls may be nested. -/
  depthLimit : Option Nat := none
deriving DecidableEq, Repr

namespace Settings

/-- Whether loops are compiled as soon as they are read. A machine that carries out loops directly never
compiles them. -/
def expandsAhead (settings : Settings) : Bool := settings.expandAhead && settings.mode = .compiled

end Settings

/-- A machine. -/
structure Machine where
  /-- The settings, which do not change. -/
  settings : Settings := {}
  /-- The clauses of the program. -/
  program : Program := {}
  /-- The procedures of compiled loops. -/
  procedures : Procedures := {}
  /-- The bindings of the current run. -/
  bindings : Bindings := .empty
  /-- What was written and not yet taken. -/
  output : String := ""
  /-- What was warned about and not yet taken. -/
  warnings : List LoopWarning := []
  /-- How many barriers were set up. -/
  barriers : Nat := 0
deriving Inhabited

/-- A computation of a machine, which may stop. -/
abbrev Run := EStateM Stop Machine

namespace Run

/-- Stops with an error. -/
def fail {α : Type} (error : RunError) : Run α := throw (.error error)

/-- The end of the chain of variables that a term starts. -/
def walk (term : Term) : Run Term := do return (← get).bindings.walk term

/-- Stops unless the bindings below some terms come to an end. A term that contains itself would be written
out forever. -/
def checkEnds (terms : List Term) : Run Unit := do
  if terms.all (← get).bindings.ends then return else throw .exhausted

/-- A term with its bound variables replaced. -/
def resolve (term : Term) : Run Term := do
  checkEnds [term]
  return (← get).bindings.resolve term

/-- The present state of the bindings. -/
def mark : Run Mark := do return (← get).bindings.mark

/-- Goes back to an earlier state of the bindings. -/
def undoTo (mark : Mark) : Run Unit := modify fun machine =>
  { machine with bindings := machine.bindings.undoTo mark }

/-- Takes a number of new variables and hands back the number of the first. -/
def take (count : Nat) : Run Nat := modifyGet fun machine =>
  let next := machine.bindings.size
  (next, { machine with bindings := machine.bindings.reserve (next + count) })

/-- Unifies two sequences of terms. -/
def unifyAll (fuel : Nat) (lefts rights : List Term) : Run Bool := fun machine =>
  let (outcome, bindings) := machine.bindings.unifyAll fuel lefts rights
  let machine := { machine with bindings := bindings }
  match outcome with
  | some unified => .ok unified machine
  | none => .error .exhausted machine

/-- A copy of a clause with new variables: the arguments of its head, and its body. -/
def copyClause (clause : Clause) : Run (List Term × Term) := do
  return clause.instantiate (← take clause.width)

/-- A copy of a template with new variables. -/
def copyTemplate (template : Template) : Run (List Term) := do
  return template.instantiate (← take template.width)

/-- A barrier that was not used before. -/
def newBarrier : Run Nat := modifyGet fun machine =>
  (machine.barriers + 1, { machine with barriers := machine.barriers + 1 })

/-- Writes a text. -/
def emit (text : String) : Run Unit := modify fun machine =>
  { machine with output := machine.output ++ text }

/-- Turns diagnostics into warnings. -/
def report (names : List (String × Nat)) (diagnostics : List Diagnostic) : Run Unit :=
  modify fun machine => { machine with
    warnings := machine.warnings ++ diagnostics.map (LoopWarning.ofDiagnostic names) }

/-- Fails if calls are nested too deeply. -/
def checkDepth (depth : Nat) : Run Unit := do
  match (← get).settings.depthLimit with
  | some limit => if limit ≤ depth then fail (.depthLimit limit)
  | none => return

/-- Carries out a computation that takes new variables. -/
def supplied {ε α : Type} (wrap : ε → RunError) (action : Supplied ε α) : Run α := fun machine =>
  match action machine.bindings.size with
  | .ok value next => .ok value { machine with bindings := machine.bindings.reserve next }
  | .error error next =>
    .error (.error (wrap error)) { machine with bindings := machine.bindings.reserve next }

/-- Carries out a computation that takes new variables and registers procedures. -/
def compiling {α : Type} (action : Compiler α) : Run α := fun machine =>
  match action ⟨machine.bindings.size, machine.procedures⟩ with
  | .ok value ⟨next, procedures⟩ => .ok value { machine with
      bindings := machine.bindings.reserve next
      procedures := procedures }
  | .error error ⟨next, procedures⟩ => .error (.error (.loop error)) { machine with
      bindings := machine.bindings.reserve next
      procedures := procedures }

/-- Goes back to the present state of the bindings after a computation, whether it stops or not. -/
def restoring {α : Type} (action : Run α) : Run α := fun machine =>
  let mark := machine.bindings.mark
  match action machine with
  | .ok value machine => .ok value { machine with bindings := machine.bindings.undoTo mark }
  | .error stop machine =>
    .error stop { machine with bindings := machine.bindings.undoTo mark }

end Run

end HornLoops
