import HornLoops.Clause
import HornLoops.Machine.Error

/-!
# Programs

A program is a sequence of clauses. The clauses for a predicate are those whose heads have its name and number of
arguments, in the order in which they were added.
-/

namespace HornLoops

/-- The clauses of a program, in order. -/
structure Program where
  /-- The clauses. -/
  clauses : List Clause := []
deriving DecidableEq, Repr, Inhabited

namespace Program

/-- The number of clauses. -/
def size (program : Program) : Nat := program.clauses.length

/-- The clauses for a predicate. -/
def clausesFor (program : Program) (name : String) (arity : Nat) : List Clause :=
  program.clauses.filter fun clause => clause.head.nameArity? = some (name, arity)

/-- Head and body of a clause that is given as a term. The body of a fact is `true`. -/
def headAndBody (clause : Term) : Term × Term := (clause.binary? ":-").getD (clause, .truth)

/-- Adds a clause at the end. -/
def add (program : Program) (clause : Term) : Except RunError Program :=
  let (head, body) := headAndBody clause
  match head with
  | .var _ => .error (.unbound .clauseHead)
  | .int _ => .error (.mismatch .callable head)
  | .atom _ | .compound .. => .ok ⟨program.clauses ++ [.ofTerms head body]⟩

end Program

end HornLoops
