import HornLoops.Term.Basic

/-!
# Ordered sets of variables

Which variables a loop shares with its surroundings, and in which order, decides the arguments of its
procedure. A set of variables is therefore a list without repetitions that remembers the order in which
its members came.
-/

namespace HornLoops

/-- Variables in the order of their first appearance. -/
abbrev VarSet := List Nat

namespace VarSet

/-- Adds a variable at the end, unless it is a member already. -/
def insert (set : VarSet) (id : Nat) : VarSet :=
  if id ∈ set then set else set ++ [id]

/-- Adds variables one after the other. -/
def extend (set : VarSet) (ids : List Nat) : VarSet := ids.foldl insert set

/-- The distinct members of a list, in the order of their first appearance. -/
def ofList (ids : List Nat) : VarSet := extend [] ids

/-- The members of one set that are not in another. -/
def without (set other : VarSet) : VarSet := set.filter fun id => id ∉ other

end VarSet

namespace Term

/-- The distinct variables of a term, in the order of their first occurrence. -/
def vars (term : Term) : VarSet := VarSet.ofList term.occurrences

/-- The distinct variables of a sequence of terms, in the order of their first occurrence. -/
def varsAll (terms : List Term) : VarSet := VarSet.ofList (occurrencesAll terms)

end Term

end HornLoops
