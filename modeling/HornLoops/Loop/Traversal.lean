import HornLoops.Loop.Params

/-!
# Loops inside clauses

Loops are found by walking through the control constructs of a clause or a goal. On the way down the walk
collects the variables that occur around each loop, since these decide what the loop shares. What is done
with a loop is left open here: it may be compiled, or it may be settled, that is, kept as a goal whose
parameters list what it shares.
-/

namespace HornLoops

/-- A goal with its loops treated, and the findings about them. -/
abbrev Treated := Term × List Diagnostic

/-- What is done with a loop, given its specification, its body, the variables around it, and a way to treat the
loops inside its body once it is known what is around them. -/
abbrev LoopTreatment (m : Type → Type) :=
  Term → Term → VarSet → (VarSet → m Treated) → m Treated

/-- The names of control constructs with two goals. -/
def isJunction (name : String) : Bool := name = "," || name = ";" || name = "->"

/-- The names of control constructs with one goal. -/
def isModality (name : String) : Bool := name = "\\+" || name = "call"

/-- Treats the loops of a goal. For each of two goals side by side the other one is part of its
surroundings. A loop whose specification is unknown is left alone. -/
def treatGoal {m : Type → Type} [Monad m] (treat : LoopTreatment m) : Term → VarSet → m Treated
  | .compound name inner [], outside =>
    if isModality name then do
      let (inner, findings) ← treatGoal treat inner outside
      return (.unary name inner, findings)
    else return (.unary name inner, [])
  | .compound name left [right], outside =>
    if isJunction name then do
      let (left', findings) ← treatGoal treat left (outside.extend right.occurrences)
      let (right', more) ← treatGoal treat right (outside.extend left.occurrences)
      return (.binary name left' right', findings ++ more)
    else if name = "do" && !left.isVar then treat left right outside (treatGoal treat right)
    else return (.binary name left right, [])
  | goal, _ => return (goal, [])

/-- Treats the loops of a clause, a directive or a fact. The head is around all goals of the body. -/
def treatClause {m : Type → Type} [Monad m] (treat : LoopTreatment m) (clause : Term) : m Treated :=
  match clause.binary? ":-", clause.unary? ":-" with
  | some (head, body), _ => do
    let (body, findings) ← treatGoal treat body head.vars
    return (.binary ":-" head body, findings)
  | none, some goal => do
    let (goal, findings) ← treatGoal treat goal []
    return (.unary ":-" goal, findings)
  | none, none => return (clause, [])

/-- Settles a loop. Loops inside its body have around them what a procedure of this loop would pass on. -/
def settleLoop : LoopTreatment (Except LoopError) := fun specs body outside settleBody => do
  let spec ← LoopSpec.ofTerm specs
  let shared := spec.shared body outside
  let (body, findings) ← settleBody (spec.localVars.extend shared)
  let mismatch := paramMismatch? shared spec.declared
  return (.binary "do" (spec.withParams shared).toTerm body,
    findings ++ Diagnostic.ofMismatch "do" mismatch)

/-- Settles the loops of a goal with some variables around it. -/
def settleGoal (goal : Term) (outside : VarSet) : Except LoopError Treated :=
  treatGoal settleLoop goal outside

/-- Settles the loops of a clause. -/
def settleClause (clause : Term) : Except LoopError Treated := treatClause settleLoop clause

end HornLoops
