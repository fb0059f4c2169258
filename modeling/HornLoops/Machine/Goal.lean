import HornLoops.Machine.Builtin

/-!
# Goals

What a goal asks for, told from its name and its arguments. Names of control constructs and of predicates that are
built in have their meaning only with the right number of arguments; anything else is a call of a predicate.
-/

namespace HornLoops

/-- What a goal asks for. -/
inductive Goal where
  /-- To succeed. -/
  | succeed
  /-- To fail. -/
  | fail
  /-- To give up the alternatives up to the barrier. -/
  | cut
  /-- To solve two goals one after the other. -/
  | both (left right : Term)
  /-- To solve either of two goals. -/
  | either (left right : Term)
  /-- To solve a goal after the first solution of another. -/
  | ifThen (condition consequence : Term)
  /-- To succeed if a goal has no solution. -/
  | unless (inner : Term)
  /-- To call a goal with further arguments. -/
  | call (target : Term) (extra : List Term)
  /-- To carry out a loop. -/
  | loop (specs body : Term)
  /-- To collect the solutions of a goal. -/
  | collect (template inner result : Term)
  /-- To do what is built in. -/
  | builtin (action : Builtin)
  /-- To call a predicate. -/
  | predicate (name : String) (args : List Term)

namespace Goal

/-- What a name with arguments asks for. -/
def ofCall (name : String) (args : List Term) : Goal :=
  match name, args with
  | "true", [] => .succeed
  | "fail", [] => .fail
  | "false", [] => .fail
  | "!", [] => .cut
  | ",", [left, right] => .both left right
  | ";", [left, right] => .either left right
  | "->", [condition, consequence] => .ifThen condition consequence
  | "\\+", [inner] => .unless inner
  | "not", [inner] => .unless inner
  | "call", target :: extra => .call target extra
  | "do", [specs, body] => .loop specs body
  | "findall", [template, inner, result] => .collect template inner result
  | _, _ =>
    match Builtin.ofCall? name args with
    | some action => .builtin action
    | none => .predicate name args

/-- What a term asks for as a goal. -/
def ofTerm (term : Term) : Except RunError Goal :=
  match term with
  | .var _ => .error (.unbound .goal)
  | .int _ => .error (.mismatch .callable term)
  | .atom name => .ok (ofCall name [])
  | .compound name first rest => .ok (ofCall name (first :: rest))

theorem ofTerm_build (name : String) (args : List Term) : ofTerm (.build name args) = .ok (ofCall name args) := by
  cases args <;> rfl

/-- A goal with further arguments. -/
def withArgs (target : Term) : List Term → Except RunError Term
  | [] => .ok target
  | extra =>
    match target with
    | .var _ => .error (.unbound .callTarget)
    | .int _ => .error (.mismatch .callable target)
    | .atom name => .ok (.build name extra)
    | .compound name first rest => .ok (.compound name first (rest ++ extra))

end Goal

end HornLoops
