/-!
# Terms

A term is a variable, an integer, an atom or a compound. Variables are numbered in the order in which they
are made, so of two variables the one with the smaller number is the older. A compound has at least one
argument, which the type guarantees by keeping the first argument apart; a name without arguments is an atom.
Integers are words of 64 bits.

Lists are built from the atom `[]` and the functor `.` of two arguments, conjunctions from the functor `,`.
-/

namespace HornLoops

/-- A term of the language. -/
inductive Term where
  /-- A variable, known by its number. -/
  | var (id : Nat)
  /-- A signed integer of 64 bits. -/
  | int (value : Int64)
  /-- A name without arguments. -/
  | atom (name : String)
  /-- A name with one argument or more. -/
  | compound (name : String) (first : Term) (rest : List Term)
deriving Inhabited, Repr

namespace Term

mutual

/-- Whether two terms are the same. -/
def same : Term → Term → Bool
  | .var left, .var right => left == right
  | .int left, .int right => left == right
  | .atom left, .atom right => left == right
  | .compound left first rest, .compound right first' rest' =>
    left == right && same first first' && sameAll rest rest'
  | _, _ => false

/-- Whether two sequences of terms are the same. -/
def sameAll : List Term → List Term → Bool
  | [], [] => true
  | left :: lefts, right :: rights => same left right && sameAll lefts rights
  | _, _ => false

end

mutual

/-- The test of sameness decides equality. -/
theorem same_iff (left right : Term) : same left right = true ↔ left = right := by
  cases left <;> cases right <;> simp [same, Bool.and_eq_true]
  rename_i _ first rest _ first' rest'
  rw [same_iff first first', sameAll_iff rest rest', and_assoc]

/-- The test of sameness decides equality of sequences. -/
theorem sameAll_iff (lefts rights : List Term) : sameAll lefts rights = true ↔ lefts = rights := by
  cases lefts with
  | nil => cases rights <;> simp [sameAll]
  | cons left lefts =>
    cases rights with
    | nil => simp [sameAll]
    | cons right rights =>
      simp [sameAll, Bool.and_eq_true]
      rw [same_iff left right, sameAll_iff lefts rights]

end

instance : DecidableEq Term := fun left right =>
  decidable_of_iff (same left right = true) (same_iff left right)

/-- The term with a name and a sequence of arguments, which is an atom if there are none. -/
def build (name : String) : List Term → Term
  | [] => .atom name
  | first :: rest => .compound name first rest

/-- The arguments of a term. -/
def args : Term → List Term
  | .compound _ first rest => first :: rest
  | _ => []

/-- Name and number of arguments of an atom or a compound. -/
def nameArity? : Term → Option (String × Nat)
  | .atom name => some (name, 0)
  | .compound name _ rest => some (name, rest.length + 1)
  | _ => none

/-- The number of a variable. -/
def var? : Term → Option Nat
  | .var id => some id
  | _ => none

/-- The value of an integer. -/
def int? : Term → Option Int64
  | .int value => some value
  | _ => none

/-- The name of an atom. -/
def atom? : Term → Option String
  | .atom name => some name
  | _ => none

/-- Whether a term is a variable. -/
def isVar : Term → Bool
  | .var _ => true
  | _ => false

/-- Whether a term can be called as a goal. -/
def isCallable : Term → Bool
  | .atom _ | .compound .. => true
  | .var _ | .int _ => false

/-- The argument of a compound with the given name and one argument. -/
def unary? (name : String) : Term → Option Term
  | .compound name' first [] => if name' = name then some first else none
  | _ => none

/-- The arguments of a compound with the given name and two arguments. -/
def binary? (name : String) : Term → Option (Term × Term)
  | .compound name' first [second] => if name' = name then some (first, second) else none
  | _ => none

/-- The compound with one argument. -/
def unary (name : String) (argument : Term) : Term := .compound name argument []

/-- The compound with two arguments. -/
def binary (name : String) (left right : Term) : Term := .compound name left [right]

/-- The goal that always succeeds. -/
def truth : Term := .atom "true"

/-- The empty list. -/
def nil : Term := .atom "[]"

/-- The list with a head and a tail. -/
def cons (head tail : Term) : Term := binary "." head tail

/-- The list of some items before a tail. -/
def listBefore (items : List Term) (tail : Term) : Term := items.foldr cons tail

/-- The proper list of some items. -/
def list (items : List Term) : Term := listBefore items nil

/-- The items of a proper list. -/
def listItems? : Term → Option (List Term)
  | .compound name head [tail] =>
    if name = "." then (listItems? tail).map (head :: ·) else none
  | .atom name => if name = "[]" then some [] else none
  | _ => none

/-- The goal that asks for two goals, one after the other. -/
def both (left right : Term) : Term := binary "," left right

/-- The conjunction of goals that are known to be other than `true`. -/
def joinGoals : List Term → Term
  | [] => truth
  | [goal] => goal
  | goal :: goals => both goal (joinGoals goals)

/-- The conjunction of goals, nested to the right. Goals that are `true` are left out, and the empty
conjunction is `true`. -/
def conjunction (goals : List Term) : Term :=
  joinGoals (goals.filter fun goal => goal ≠ truth)

/-- The goals of a conjunction, along its right spine. -/
def conjuncts : Term → List Term
  | .compound name left [right] =>
    if name = "," then left :: conjuncts right else [.compound name left [right]]
  | goal => [goal]

/-- Replaces the variables that stand for whole goals of a conjunction. -/
def mapGoalVars (replace : Nat → Term) : Term → Term
  | .var id => replace id
  | .compound name left [right] =>
    if name = "," then both (mapGoalVars replace left) (mapGoalVars replace right)
    else .compound name left [right]
  | term => term

mutual

/-- Replaces every variable by a term. -/
def subst (replace : Nat → Term) : Term → Term
  | .var id => replace id
  | .int value => .int value
  | .atom name => .atom name
  | .compound name first rest => .compound name (subst replace first) (substAll replace rest)

/-- Replaces every variable of a sequence by a term. -/
def substAll (replace : Nat → Term) : List Term → List Term
  | [] => []
  | term :: terms => subst replace term :: substAll replace terms

end

/-- Renumbers the variables. -/
def rename (number : Nat → Nat) (term : Term) : Term := term.subst fun id => .var (number id)

mutual

/-- The variables of a term from left to right, with repetitions. -/
def occurrences : Term → List Nat
  | .var id => [id]
  | .int _ | .atom _ => []
  | .compound _ first rest => occurrences first ++ occurrencesAll rest

/-- The variables of a sequence from left to right, with repetitions. -/
def occurrencesAll : List Term → List Nat
  | [] => []
  | term :: terms => occurrences term ++ occurrencesAll terms

end

mutual

/-- Whether all variables of a term have a property. -/
def everyVar (holds : Nat → Bool) : Term → Bool
  | .var id => holds id
  | .int _ | .atom _ => true
  | .compound _ first rest => everyVar holds first && everyVarAll holds rest

/-- Whether all variables of a sequence have a property. -/
def everyVarAll (holds : Nat → Bool) : List Term → Bool
  | [] => true
  | term :: terms => everyVar holds term && everyVarAll holds terms

end

/-- Whether a term has no variables. -/
def isGround (term : Term) : Bool := term.occurrences.isEmpty

end Term

end HornLoops
