import HornLoops.Clause
import HornLoops.Loop.Threads

/-!
# Procedures and plans of loops

The threads of a loop and its body can be laid out in two ways. As a procedure they become two clauses: one
for the end of the loop, and one that runs the steps and the body and calls the procedure again. As a plan they
are the same pieces without a name, for carrying the loop out directly.
-/

namespace HornLoops

/-- The procedure of a loop. -/
structure Procedure where
  /-- Its name. -/
  name : String
  /-- The number of its arguments. -/
  arity : Nat
  /-- The clause that ends the loop, with the body `true`. -/
  base : Clause
  /-- The clause for one more iteration. -/
  recursive : Clause
deriving DecidableEq, Repr

namespace Procedure

/-- Both clauses, the one that ends the loop first. -/
def clauses (procedure : Procedure) : List Clause := [procedure.base, procedure.recursive]

end Procedure

/-- One iteration of a loop in joint normal form. -/
structure LoopStep where
  /-- Arguments that start the iteration. -/
  head : List Term
  /-- The goals of the iteration. -/
  body : Term
  /-- Arguments for the next iteration. -/
  call : List Term
  /-- How many variables they have. -/
  width : Nat
deriving DecidableEq, Repr

namespace LoopStep

/-- The iteration with some arguments and goals. -/
def ofTerms (head : List Term) (body : Term) (call : List Term) : LoopStep :=
  let names := Term.varsAll (head ++ body :: call)
  let normal := Term.rename names.idxOf
  ⟨head.map normal, normal body, call.map normal, names.length⟩

end LoopStep

/-- A loop laid out for being carried out directly. -/
structure LoopPlan where
  /-- Goals before the first iteration. -/
  prelude : List Term
  /-- Arguments of the first iteration. -/
  initial : List Term
  /-- Arguments that end the loop. -/
  terminal : Template
  /-- One iteration. -/
  step : LoopStep
deriving DecidableEq, Repr

namespace Threads

/-- The procedure with these threads and a body. -/
def procedure (threads : Threads) (name : String) (body : Term) : Procedure where
  name := name
  arity := threads.arity
  base := .ofTerms (.build name threads.terminal) .truth
  recursive := .ofTerms (.build name threads.head)
    (.conjunction (threads.steps ++ [body, .build name threads.call]))

/-- The goal that runs a loop through its procedure. -/
def initialGoal (threads : Threads) (name : String) : Term :=
  .conjunction (threads.prelude ++ [.build name threads.initial])

/-- The plan with these threads and a body. -/
def plan (threads : Threads) (body : Term) : LoopPlan where
  prelude := threads.prelude
  initial := threads.initial
  terminal := .ofTerms threads.terminal
  step := .ofTerms threads.head (.conjunction (threads.steps ++ [body])) threads.call

/-- The variables that an iteration can see besides those of its body. -/
def context (threads : Threads) : VarSet :=
  Term.varsAll (threads.head ++ threads.steps ++ threads.call)

end Threads

/-- The plan of a loop with its parameters as declared. -/
def planLoop (specs body : Term) : LoopIterator.Threading LoopPlan := do
  let spec ← MonadExcept.ofExcept (LoopSpec.ofTerm specs)
  return (← spec.threads).plan body

end HornLoops
