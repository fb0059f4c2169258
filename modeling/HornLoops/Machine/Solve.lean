import HornLoops.Machine.Goal
import HornLoops.Machine.State

/-!
# Solving goals

Goals are solved depth first. Each solution of a goal is handed to a continuation, and the signal that the
continuation answers with says whether the goal is to look for another solution, to give up the whole search,
or to give up the alternatives up to a barrier. What continuations collect on the way is a value that they
pass along with the signal. When a goal has no more solutions, the bindings are as they were before it.

A solver is given the goal, the depth of the calls around it, the barrier for its cuts, the continuation
and the value collected so far. Since a search need not end, it also takes a bound, the fuel, and a search that
uses it up is stopped; as long as it does not, the bound has no influence.
-/

namespace HornLoops

/-- What a continuation asks of the goal that found a solution. -/
inductive Signal where
  /-- To look for another solution. -/
  | more
  /-- To give up the whole search. -/
  | halt
  /-- To give up the alternatives up to a barrier. -/
  | cut (barrier : Nat)
deriving DecidableEq, Repr

namespace Signal

/-- The signal outside of a barrier: a cut up to the barrier has no effect beyond it. -/
def beyond (barrier : Nat) : Signal → Signal
  | .cut target => if target = barrier then .more else .cut target
  | signal => signal

/-- The signal of a cut whose continuation would look for another solution. -/
def orCut (barrier : Nat) : Signal → Signal
  | .more => .cut barrier
  | signal => signal

end Signal

/-- What a search answers: a signal and the value collected so far. -/
abbrev Outcome (σ : Type) := Signal × σ

/-- What is done with a solution. -/
abbrev Continuation (σ : Type) := σ → Run (Outcome σ)

/-- A way to solve goals. -/
abbrev Solver := (σ : Type) → (goal : Term) → (depth barrier : Nat) → Continuation σ → σ → Run (Outcome σ)

namespace Machine

/-- Hands on the solution of unifying two sequences of terms, if they can be unified. -/
def equate {σ : Type} (fuel : Nat) (lefts rights : List Term) (k : Continuation σ) (acc : σ) :
    Run (Outcome σ) := do
  let mark ← Run.mark
  if ← Run.unifyAll fuel lefts rights then
    let result ← k acc
    Run.undoTo mark
    return result
  else return (.more, acc)

/-- Does what a predicate that is built in asks for. -/
def perform {σ : Type} (fuel : Nat) (effect : Effect) (k : Continuation σ) (acc : σ) : Run (Outcome σ) := do
  match effect with
  | .refuse => return (.more, acc)
  | .accept => k acc
  | .equate taken lefts rights =>
    let _ ← Run.take taken
    equate fuel lefts rights k acc
  | .write text =>
    Run.emit text
    k acc

/-- Solves either of two goals, the left one first. -/
def solveEither {σ : Type} (solve : Solver) (left right : Term) (depth barrier : Nat)
    (k : Continuation σ) (acc : σ) : Run (Outcome σ) := do
  match ← solve σ left depth barrier k acc with
  | (.more, acc) => solve σ right depth barrier k acc
  | other => return other

/-- Solves a goal after the first solution of a condition. If the condition has no solution, another goal
is solved instead, if there is one. Cuts in the condition stay inside it. -/
def solveIf {σ : Type} (solve : Solver) (condition consequence : Term) (alternative : Option Term)
    (depth barrier : Nat) (k : Continuation σ) (acc : σ) : Run (Outcome σ) := do
  let inner ← Run.newBarrier
  let commit : Continuation (Bool × σ) := fun (_, acc) => do
    let (signal, acc) ← solve σ consequence depth barrier k acc
    return (signal.orCut inner, (true, acc))
  let (signal, (found, acc)) ← solve (Bool × σ) condition depth inner commit (false, acc)
  match signal, found, alternative with
  | .more, false, some alternative => solve σ alternative depth barrier k acc
  | signal, _, _ => return (signal.beyond inner, acc)

/-- Succeeds if a goal has no solution. -/
def solveUnless {σ : Type} (solve : Solver) (inner : Term) (depth : Nat) (k : Continuation σ) (acc : σ) :
    Run (Outcome σ) := do
  let inside ← Run.newBarrier
  let (signal, _) ← solve Unit inner depth inside (fun _ => return (.cut inside, ())) ()
  match signal with
  | .more => k acc
  | signal => return (signal.beyond inside, acc)

/-- Solves a goal with its cuts confined to it. -/
def solveConfined {σ : Type} (solve : Solver) (goal : Term) (depth : Nat) (k : Continuation σ) (acc : σ) :
    Run (Outcome σ) := do
  let inner ← Run.newBarrier
  let (signal, acc) ← solve σ goal depth inner k acc
  return (signal.beyond inner, acc)

/-- Copies of terms in normal form, with new variables. -/
def copyAll : List NormalForm → Run (List Term)
  | [] => return []
  | form :: forms => do
    let next ← Run.take form.width
    return form.term.rename (next + ·) :: (← copyAll forms)

/-- Collects the instances of a template for all solutions of a goal, each with new variables. -/
def solveCollect {σ : Type} (fuel : Nat) (solve : Solver) (template goal result : Term) (depth : Nat)
    (k : Continuation σ) (acc : σ) : Run (Outcome σ) := do
  let inner ← Run.newBarrier
  let note : Continuation (List NormalForm) := fun found => do
    return (.more, (← Run.resolve template).normalize :: found)
  let (_, found) ← solve (List NormalForm) goal depth inner note []
  let items ← copyAll found.reverse
  equate fuel [result] [.list items] k acc

/-- Tries clauses one after the other. -/
def tryClauses {σ : Type} (fuel : Nat) (solve : Solver) (args : List Term) (depth inner : Nat)
    (k : Continuation σ) : List Clause → σ → Run (Outcome σ)
  | [], acc => return (.more, acc)
  | clause :: clauses, acc => do
    let mark ← Run.mark
    let (params, body) ← Run.copyClause clause
    let (signal, acc) ←
      if ← Run.unifyAll fuel params args then solve σ body (depth + 1) inner k acc
      else pure (.more, acc)
    Run.undoTo mark
    match signal with
    | .more => tryClauses fuel solve args depth inner k clauses acc
    | signal => return (signal.beyond inner, acc)

/-- Calls the procedure of a loop. If the arguments end the loop, there is no further iteration. -/
def callProcedure {σ : Type} (fuel : Nat) (solve : Solver) (procedure : Procedure) (args : List Term)
    (depth : Nat) (k : Continuation σ) (acc : σ) : Run (Outcome σ) := do
  Run.checkDepth depth
  let mark ← Run.mark
  let (terminal, _) ← Run.copyClause procedure.base
  if ← Run.unifyAll fuel terminal args then
    let result ← k acc
    Run.undoTo mark
    return result
  let (params, body) ← Run.copyClause procedure.recursive
  let inner ← Run.newBarrier
  let (signal, acc) ←
    if ← Run.unifyAll fuel params args then solve σ body (depth + 1) inner k acc
    else pure (.more, acc)
  Run.undoTo mark
  return (signal.beyond inner, acc)

/-- Calls a predicate of the program, or a procedure if the program has no clauses for it. -/
def callPredicate {σ : Type} (fuel : Nat) (solve : Solver) (name : String) (args : List Term)
    (depth : Nat) (k : Continuation σ) (acc : σ) : Run (Outcome σ) := do
  let machine ← get
  match machine.program.clausesFor name args.length with
  | [] =>
    match machine.procedures.named? name with
    | some procedure =>
      if procedure.arity = args.length then callProcedure fuel solve procedure args depth k acc
      else Run.fail (.unknownProcedure name args.length)
    | none => Run.fail (.unknownProcedure name args.length)
  | clauses =>
    Run.checkDepth depth
    let inner ← Run.newBarrier
    tryClauses fuel solve args depth inner k clauses acc

/-- A copy of one iteration with new variables. -/
def copyStep (step : LoopStep) : Run (List Term × Term × List Term) := do
  let next ← Run.take step.width
  let copy := Term.rename (next + ·)
  return (step.head.map copy, copy step.body, step.call.map copy)

/-- Carries out the iterations of a loop from its plan. An iteration does what a call of the loop's procedure
would do. The first argument bounds the number of iterations. -/
def iterate {σ : Type} (solve : Solver) (plan : LoopPlan) (k : Continuation σ) :
    Nat → List Term → Nat → σ → Run (Outcome σ)
  | 0, _, _, _ => throw .exhausted
  | fuel + 1, args, depth, acc => do
    Run.checkDepth depth
    let mark ← Run.mark
    let terminal ← Run.copyTemplate plan.terminal
    if ← Run.unifyAll fuel terminal args then
      let result ← k acc
      Run.undoTo mark
      return result
    let (params, body, call) ← copyStep plan.step
    let inner ← Run.newBarrier
    let (signal, acc) ←
      if ← Run.unifyAll fuel params args then
        solve σ body (depth + 1) inner (iterate solve plan k fuel call (depth + 1)) acc
      else pure (.more, acc)
    Run.undoTo mark
    return (signal.beyond inner, acc)

/-- Carries out a loop from its plan. -/
def interpret {σ : Type} (fuel : Nat) (solve : Solver) (plan : LoopPlan) (depth barrier : Nat)
    (k : Continuation σ) (acc : σ) : Run (Outcome σ) :=
  solve σ (.conjunction plan.prelude) depth barrier (iterate solve plan k fuel plan.initial depth) acc

/-- The iterators of a loop that is reached while running, with the variables that are bound by now as further
parameters. Arguments of iterators are left as they are, so that the loop has the same shape for all values. -/
def threaded (bindings : Bindings) (specs body : Term) : Except LoopError Term := do
  let spec ← LoopSpec.ofTerm (bindings.conjunction specs)
  let bound := body.vars.filter fun id => bindings.walk (.var id) ≠ .var id
  return (spec.withParams (spec.declared.extend (spec.shared body bound))).toTerm

/-- Carries out a loop that is reached while running. -/
def solveLoop {σ : Type} (fuel : Nat) (solve : Solver) (specs body : Term) (depth barrier : Nat)
    (k : Continuation σ) (acc : σ) : Run (Outcome σ) := do
  let machine ← get
  match threaded machine.bindings specs body with
  | .error error => Run.fail (.loop error)
  | .ok specs =>
    match machine.settings.mode with
    | .compiled =>
      let compiled ← Run.compiling (Compiler.compileLoop specs body none)
      Run.report [] compiled.diagnostics
      solve σ compiled.goal depth barrier k acc
    | .interpreted =>
      let plan ← Run.supplied .loop (planLoop specs body)
      interpret fuel solve plan depth barrier k acc

/-- Does what a goal asks for. -/
def achieve {σ : Type} (fuel : Nat) (solve : Solver) (goal : Goal) (depth barrier : Nat)
    (k : Continuation σ) (acc : σ) : Run (Outcome σ) := do
  match goal with
  | .succeed => k acc
  | .fail => return (.more, acc)
  | .cut =>
    let (signal, acc) ← k acc
    return (signal.orCut barrier, acc)
  | .both left right => solve σ left depth barrier (solve σ right depth barrier k) acc
  | .either left right =>
    let left ← Run.walk left
    match left.binary? "->" with
    | some (condition, consequence) =>
      solveIf solve condition consequence (some right) depth barrier k acc
    | none => solveEither solve left right depth barrier k acc
  | .ifThen condition consequence => solveIf solve condition consequence none depth barrier k acc
  | .unless inner => solveUnless solve inner depth k acc
  | .call target extra =>
    match Goal.withArgs (← Run.walk target) extra with
    | .ok goal => solveConfined solve goal depth k acc
    | .error error => Run.fail error
  | .loop specs body => solveLoop fuel solve specs body depth barrier k acc
  | .collect template inner result => solveCollect fuel solve template inner result depth k acc
  | .builtin action =>
    match action fuel (← get).bindings with
    | .ok effect => perform fuel effect k acc
    | .error stop => throw stop
  | .predicate name args => callPredicate fuel solve name args depth k acc

/-- Solves a goal. The fuel bounds how deeply steps of the search are nested. -/
def solve : Nat → Solver
  | 0 => fun _ _ _ _ _ _ => throw .exhausted
  | fuel + 1 => fun _ goal depth barrier k acc => do
    match Goal.ofTerm (← Run.walk goal) with
    | .ok goal => achieve fuel (solve fuel) goal depth barrier k acc
    | .error error => Run.fail error

end Machine

end HornLoops
