import HornLoops.Term.Basic

/-!
# Bindings

A store of variables. Each variable has a cell, which is empty while the variable is unbound and holds a term
afterwards. The trail lists the variables in the order in which they were bound. A mark remembers the lengths
of both, and going back to it empties the cells that were filled since and drops those that were added since.

Nothing keeps a variable from being bound to a term in which it occurs. Operations that follow bindings
therefore pass through no more cells than there are, which is enough for every store without such a circle.
-/

namespace HornLoops

/-- Variables and what they are bound to. -/
structure Bindings where
  /-- The cell of each variable, by its number. -/
  cells : Array (Option Term)
  /-- The variables that were bound, the latest last. -/
  trail : Array Nat
deriving Inhabited

/-- A state of a store to go back to. -/
structure Mark where
  /-- The length of the trail. -/
  trail : Nat
  /-- The number of cells. -/
  cells : Nat
deriving DecidableEq, Repr

namespace Bindings

/-- The store without variables. -/
def empty : Bindings := ⟨#[], #[]⟩

/-- The number of variables, which is also the number of the next one. -/
def size (bindings : Bindings) : Nat := bindings.cells.size

/-- Adds unbound variables until there are as many as asked for. -/
def reserve (bindings : Bindings) (size : Nat) : Bindings :=
  { bindings with cells := bindings.cells ++ Array.replicate (size - bindings.cells.size) none }

/-- What a variable is bound to. -/
def lookup? (bindings : Bindings) (id : Nat) : Option Term := bindings.cells[id]?.join

/-- Binds a variable and notes it on the trail. A variable that is not in the store stays unbound. -/
def bind (bindings : Bindings) (id : Nat) (value : Term) : Bindings :=
  if id < bindings.cells.size then
    ⟨bindings.cells.setIfInBounds id (some value), bindings.trail.push id⟩
  else bindings

/-- The present state. -/
def mark (bindings : Bindings) : Mark := ⟨bindings.trail.size, bindings.cells.size⟩

/-- Empties the cells of some variables. -/
def release (cells : Array (Option Term)) (ids : Array Nat) : Array (Option Term) :=
  ids.foldl (fun cells id => cells.setIfInBounds id none) cells

/-- Unbinds the variables that were bound since a mark. -/
def unbindTo (bindings : Bindings) (mark : Mark) : Bindings :=
  let since := bindings.trail.extract mark.trail
  ⟨release bindings.cells since, bindings.trail.shrink mark.trail⟩

/-- Goes back to a mark: unbinds the variables that were bound since and drops those that were added
since. -/
def undoTo (bindings : Bindings) (mark : Mark) : Bindings :=
  let unbound := bindings.unbindTo mark
  ⟨unbound.cells.shrink mark.cells, unbound.trail⟩

/-- Follows a chain of variables for a number of steps. -/
def follow (bindings : Bindings) : Nat → Term → Term
  | steps + 1, .var id =>
    match bindings.lookup? id with
    | some value => follow bindings steps value
    | none => .var id
  | _, term => term

/-- Follows a chain of variables to its end, an unbound variable or a term that is not a variable. -/
def walk (bindings : Bindings) (term : Term) : Term := bindings.follow bindings.size term

/-- Replaces bound variables by their values, through a number of levels of bindings. -/
def resolveWithin (bindings : Bindings) : Nat → Term → Term
  | 0, term => term
  | levels + 1, term => term.subst fun id =>
    match bindings.lookup? id with
    | some value => resolveWithin bindings levels value
    | none => .var id

/-- Replaces all bound variables by their values. -/
def resolve (bindings : Bindings) (term : Term) : Term := bindings.resolveWithin bindings.size term

/-- Whether the bindings below a term come to an end within a number of levels. -/
def endsWithin (bindings : Bindings) : Nat → Term → Bool
  | 0, term => term.everyVar fun id => (bindings.lookup? id).isNone
  | levels + 1, term => term.everyVar fun id =>
    match bindings.lookup? id with
    | some value => endsWithin bindings levels value
    | none => true

/-- Whether the bindings below a term come to an end. If they do not, the term contains itself, and nothing can be
put in place of its variables. -/
def ends (bindings : Bindings) (term : Term) : Bool := bindings.endsWithin bindings.size term

/-- Follows bindings along the branches of a conjunction, through a number of levels of bindings. -/
def conjunctionWithin (bindings : Bindings) : Nat → Term → Term
  | 0, term => term
  | levels + 1, term => term.mapGoalVars fun id =>
    match bindings.lookup? id with
    | some value => conjunctionWithin bindings levels value
    | none => .var id

/-- A conjunction with the variables at its branches replaced by their values. The conjuncts themselves are
left as they are. -/
def conjunction (bindings : Bindings) (term : Term) : Term :=
  bindings.conjunctionWithin bindings.size term

end Bindings

end HornLoops
