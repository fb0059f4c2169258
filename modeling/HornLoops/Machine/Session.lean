import HornLoops.Machine.Answer
import HornLoops.Machine.Library
import HornLoops.Machine.Solve
import HornLoops.Reader.Basic

/-!
# Working with a machine

Programs are consulted, queries are answered and procedures are called directly. Each of these leaves the
bindings as they were, whether it stops or not. The fuel is the bound for the search.
-/

namespace HornLoops.Machine

/-- The loops of a clause compiled, or settled if loops are left for later. -/
def prepareClause (clause : Term) : Run Treated := do
  if (← get).settings.expandsAhead then Run.compiling (Compiler.expandClause clause)
  else
    match settleClause clause with
    | .ok treated => return treated
    | .error error => Run.fail (.loop error)

/-- The loops of a goal compiled, or settled if loops are left for later. -/
def prepareGoal (goal : Term) : Run Treated := do
  if (← get).settings.expandsAhead then Run.compiling (Compiler.expandGoal goal [])
  else
    match settleGoal goal [] with
    | .ok treated => return treated
    | .error error => Run.fail (.loop error)

/-- Runs a directive up to its first solution. -/
def runDirective (fuel : Nat) (goal : Term) : Run Unit := do
  let barrier ← Run.newBarrier
  let _ ← solve fuel Unit goal 0 barrier (fun _ => return (.halt, ())) ()

/-- Adds a clause to the program. -/
def addClause (clause : Term) : Run Unit := do
  match (← get).program.add clause with
  | .ok program => modify fun machine => { machine with program := program }
  | .error error => Run.fail error

/-- Adds clauses and runs directives, in order, and counts the clauses. -/
def consultClauses (fuel : Nat) : List ReadTerm → Run Nat
  | [] => return 0
  | read :: reads => do
    let (clause, findings) ← prepareClause read.term
    Run.report read.names findings
    match clause.unary? ":-" with
    | some goal =>
      runDirective fuel goal
      consultClauses fuel reads
    | none =>
      addClause clause
      return (← consultClauses fuel reads) + 1

/-- Adds the clauses of a text to the program and runs its directives. Answers the number of clauses that were
added. -/
def consult (fuel : Nat) (text : String) : Run Nat := Run.restoring do
  let reads ← Run.supplied .reading (readProgram text)
  consultClauses fuel reads

/-- The machine that a run leaves behind, whether it stopped or not. -/
def after {α : Type} : EStateM.Result Stop Machine α → Machine
  | .ok _ machine | .error _ machine => machine

/-- A machine that knows the library, with given settings and procedures. -/
def start (settings : Settings) (procedures : Procedures) : Machine :=
  after (consult 0 libraryText { settings := settings, procedures := procedures })

/-- The named variables of a query. Those that start with an underscore are not shown. -/
def shownNames (read : ReadTerm) : List (String × Nat) :=
  read.names.filter fun (name, _) => name.toList.head? ≠ some '_'

/-- The answer that the bindings give for some variables. -/
def answerFor (names : List (String × Nat)) (bindings : Bindings) : Answer :=
  ⟨names.map fun (name, id) => (name, bindings.resolve (.var id))⟩

/-- Whether enough answers were found. -/
def enough (limit : Option Nat) (found : List Answer) : Bool :=
  match limit with
  | some limit => limit ≤ found.length
  | none => false

/-- Notes the answer of a solution. The latest answer comes first. -/
def noteAnswer (names : List (String × Nat)) (limit : Option Nat) : Continuation (List Answer) :=
  fun found => do
    Run.checkEnds (names.map fun (_, id) => .var id)
    let found := answerFor names (← get).bindings :: found
    return (if enough limit found then .halt else .more, found)

/-- The answers to a query, up to a number of them. -/
def answers (fuel : Nat) (text : String) (limit : Option Nat) : Run (List Answer) := Run.restoring do
  let read ← Run.supplied .reading (readTerm text)
  let (goal, findings) ← prepareGoal read.term
  Run.report read.names findings
  let barrier ← Run.newBarrier
  let (_, found) ← solve fuel (List Answer) goal 0 barrier (noteAnswer (shownNames read) limit) []
  return found.reverse

/-- All answers to a query. -/
def query (fuel : Nat) (text : String) : Run (List Answer) := answers fuel text none

/-- The first answer to a query. -/
def queryOnce (fuel : Nat) (text : String) : Run (Option Answer) := do
  return (← answers fuel text (some 1)).head?

/-- The first answers to a query, at most as many as asked for. -/
def queryLimit (fuel : Nat) (text : String) (limit : Nat) : Run (List Answer) :=
  if limit = 0 then return [] else answers fuel text (some limit)

/-- Notes the values of some terms in a solution and gives up the search. -/
def noteValues (terms : List Term) : Continuation (Option (List Term)) := fun _ => do
  Run.checkEnds terms
  let bindings := (← get).bindings
  return (.halt, some (terms.map bindings.resolve))

/-- Calls a procedure by its handle. Variables of the arguments are renamed apart, and the arguments as bound
by the first solution are handed back. -/
def invoke (fuel : Nat) (handle : Nat) (args : List Term) : Run (Option (List Term)) := do
  match (← get).procedures.get? handle with
  | none => Run.fail (.unknownProcedure ("#" ++ toString handle) args.length)
  | some procedure =>
    if procedure.arity = args.length then
      Run.restoring do
        let args ← Run.copyTemplate (.ofTerms args)
        let (_, found) ←
          callProcedure fuel (solve fuel) procedure args 0 (noteValues args) none
        return found
    else Run.fail (.unknownProcedure procedure.name args.length)

/-- The clauses of all procedures, in the order of their registration. -/
def listing (machine : Machine) : List String :=
  machine.procedures.toList.flatMap fun procedure =>
    procedure.clauses.map fun clause => clause.toTerm.text ++ "."

/-- The machine without pending output. -/
def clearOutput (machine : Machine) : Machine := { machine with output := "" }

/-- The machine without pending warnings. -/
def clearWarnings (machine : Machine) : Machine := { machine with warnings := [] }

end HornLoops.Machine
