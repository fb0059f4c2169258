import HornLoops.Loop.Error
import HornLoops.Term.VarSet

/-!
# Loop specifications

A loop `Specs do Body` repeats its body under the control of iterators, which all advance together and have to
end together. This module holds the iterators, how they are read from a term and written back, and which
of their variables are new in every iteration (local) or belong to the surroundings (global).
-/

namespace HornLoops

/-- One iterator of a loop. -/
inductive LoopIterator where
  /-- `foreach(Element, List)`: each element of a list. -/
  | forEach (element list : Term)
  /-- `foreacharg(Element, Structure)` and `foreacharg(Element, Structure, Index)`: each argument of a
  compound, with its position if there is a third argument. -/
  | forEachArg (element structured : Term) (index : Option Term)
  /-- `for(Index, From, To)` and `for(Index, From, To, Step)`: each integer of a range. -/
  | range (index first last step : Term)
  /-- `count(Index, From, Max)`: consecutive integers up to a limit that may be unknown. -/
  | count (index first max : Term)
  /-- `fromto(First, In, Out, Last)`: a value handed from each iteration to the next. -/
  | fromTo (first current next last : Term)
  /-- `param(V1, ..., Vn)`: variables shared by all iterations. -/
  | param (vars : List Nat)
deriving DecidableEq, Repr

namespace LoopIterator

/-- Reads an iterator from a term. -/
def ofTerm (term : Term) : Except LoopError LoopIterator :=
  match term.nameArity?, term.args with
  | some ("foreach", _), [element, list] => .ok (.forEach element list)
  | some ("foreacharg", _), [element, structured] => .ok (.forEachArg element structured none)
  | some ("foreacharg", _), [element, structured, index] =>
    .ok (.forEachArg element structured (some index))
  | some ("for", _), [index, first, last] => .ok (.range index first last (.int 1))
  | some ("for", _), [index, first, last, step] => .ok (.range index first last step)
  | some ("count", _), [index, first, max] => .ok (.count index first max)
  | some ("fromto", _), [first, current, next, last] => .ok (.fromTo first current next last)
  | some ("param", _), args =>
    match args.mapM Term.var? with
    | some vars => .ok (.param vars)
    | none => .error ⟨.paramNotVariable, term⟩
  | _, _ => .error ⟨.unknownIterator, term⟩

/-- Writes an iterator as a term. -/
def toTerm : LoopIterator → Term
  | .forEach element list => .build "foreach" [element, list]
  | .forEachArg element structured index =>
    .build "foreacharg" ([element, structured] ++ index.toList)
  | .range index first last step => .build "for" [index, first, last, step]
  | .count index first max => .build "count" [index, first, max]
  | .fromTo first current next last => .build "fromto" [first, current, next, last]
  | .param vars => .build "param" (vars.map .var)

/-- The terms that get new variables in every iteration. -/
def localTerms : LoopIterator → List Term
  | .forEach element _ => [element]
  | .forEachArg element _ index => element :: index.toList
  | .range index _ _ _ => [index]
  | .count index _ _ => [index]
  | .fromTo _ current next _ => [current, next]
  | .param _ => []

/-- The terms that are looked at once, before the first iteration. -/
def globalTerms : LoopIterator → List Term
  | .forEach _ list => [list]
  | .forEachArg _ structured _ => [structured]
  | .range _ first last step => [first, last, step]
  | .count _ first max => [first, max]
  | .fromTo first _ _ last => [first, last]
  | .param _ => []

/-- The variables that are declared as shared. -/
def declared : LoopIterator → List Nat
  | .param vars => vars
  | _ => []

/-- Whether an iterator declares parameters. -/
def isParam : LoopIterator → Bool
  | .param _ => true
  | _ => false

end LoopIterator

/-- The iterators of a loop, of which there is at least one. -/
structure LoopSpec where
  /-- The first iterator. -/
  first : LoopIterator
  /-- The other iterators. -/
  rest : List LoopIterator
deriving DecidableEq, Repr

namespace LoopSpec

/-- All iterators, in order. -/
def iterators (spec : LoopSpec) : List LoopIterator := spec.first :: spec.rest

/-- The specification with some iterators. Without any it declares an empty sequence of parameters. -/
def ofIterators : List LoopIterator → LoopSpec
  | [] => ⟨.param [], []⟩
  | first :: rest => ⟨first, rest⟩

/-- Reads a specification from a conjunction of iterators. -/
def ofTerm (specs : Term) : Except LoopError LoopSpec :=
  (specs.conjuncts.mapM LoopIterator.ofTerm).map ofIterators

/-- Writes a specification as a conjunction of iterators. -/
def toTerm (spec : LoopSpec) : Term := .conjunction (spec.iterators.map LoopIterator.toTerm)

/-- The variables that are new in every iteration. -/
def localVars (spec : LoopSpec) : VarSet :=
  Term.varsAll (spec.iterators.flatMap LoopIterator.localTerms)

/-- The variables in terms that are looked at once. -/
def globalVars (spec : LoopSpec) : VarSet :=
  Term.varsAll (spec.iterators.flatMap LoopIterator.globalTerms)

/-- The variables that are declared as shared. -/
def declared (spec : LoopSpec) : VarSet :=
  VarSet.ofList (spec.iterators.flatMap LoopIterator.declared)

/-- Replaces all declarations of parameters by one at the front. -/
def withParams (spec : LoopSpec) (shared : VarSet) : LoopSpec :=
  let others := spec.iterators.filter fun iterator => !iterator.isParam
  ofIterators (if shared.isEmpty then others else .param shared :: others)

end LoopSpec

end HornLoops
