import HornLoops.Loop.Procedures
import HornLoops.Loop.Traversal

/-!
# Compiling loops

A loop is replaced by a goal that runs its procedure. The procedure is looked up under the signature of the
loop and made only if it is not there yet; loops inside the body are compiled when it is made.
-/

namespace HornLoops

/-- A loop that was compiled. -/
structure CompiledLoop where
  /-- The goal that runs the loop. -/
  goal : Term
  /-- The position of its procedure. -/
  handle : Nat
  /-- The name of its procedure. -/
  name : String
  /-- The number of arguments of its procedure. -/
  arity : Nat
  /-- Findings about the loop and the loops inside it. -/
  diagnostics : List Diagnostic
  /-- Whether the procedure was there before. -/
  reused : Bool
deriving DecidableEq, Repr

namespace Compiler

/-- Compiles a loop. The shared variables become its parameters if they are given, and otherwise the parameters
are as declared. -/
def compileWith (specs body : Term) (shared : Option VarSet) (expandBody : VarSet → Compiler Treated) :
    Compiler CompiledLoop := do
  let parsed ← MonadExcept.ofExcept (LoopSpec.ofTerm specs)
  let spec := (shared.map parsed.withParams).getD parsed
  let mismatch := shared.bind fun shared => paramMismatch? shared parsed.declared
  let threads ← supplied spec.threads
  let (registration, findings) ← register (Signature.ofLoop spec.toTerm body) fun name => do
    let (body, findings) ← expandBody threads.context
    return (threads.procedure name body, findings)
  return {
    goal := threads.initialGoal registration.name
    handle := registration.handle
    name := registration.name
    arity := threads.arity
    diagnostics := findings ++ Diagnostic.ofMismatch registration.name mismatch
    reused := !registration.isNew }

/-- Replaces a loop by the goal that runs its procedure. -/
def expandLoop : LoopTreatment Compiler := fun specs body outside expandBody => do
  let spec ← MonadExcept.ofExcept (LoopSpec.ofTerm specs)
  let compiled ← compileWith specs body (some (spec.shared body outside)) expandBody
  return (compiled.goal, compiled.diagnostics)

/-- Compiles the loops of a goal with some variables around it. -/
def expandGoal (goal : Term) (outside : VarSet) : Compiler Treated :=
  treatGoal expandLoop goal outside

/-- Compiles the loops of a clause. -/
def expandClause (clause : Term) : Compiler Treated := treatClause expandLoop clause

/-- Compiles a loop and the loops inside it. -/
def compileLoop (specs body : Term) (shared : Option VarSet) : Compiler CompiledLoop :=
  compileWith specs body shared (expandGoal body)

end Compiler

end HornLoops
