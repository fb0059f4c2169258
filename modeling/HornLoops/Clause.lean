import HornLoops.Term.Variant

/-!
# Clauses

A clause is a head and a body with their variables numbered jointly from zero. Every use of it takes a copy
with new variables.
-/

namespace HornLoops

/-- A head and a body in joint normal form. -/
structure Clause where
  /-- What the clause is about. -/
  head : Term
  /-- What has to hold for it. -/
  body : Term
  /-- How many variables they have. -/
  width : Nat
deriving DecidableEq, Repr

namespace Clause

/-- The clause of a head and a body. -/
def ofTerms (head body : Term) : Clause :=
  let names := Term.varsAll [head, body]
  ⟨head.rename names.idxOf, body.rename names.idxOf, names.length⟩

/-- A copy of the head's arguments and of the body, with variables that are numbered from the next free
number on. -/
def instantiate (clause : Clause) (next : Nat) : List Term × Term :=
  (clause.head.args.map (Term.rename (next + ·)), clause.body.rename (next + ·))

/-- The clause as a term. -/
def toTerm (clause : Clause) : Term := .binary ":-" clause.head clause.body

end Clause

end HornLoops
