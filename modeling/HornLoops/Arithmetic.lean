import HornLoops.Bindings.Basic
import HornLoops.Word

/-!
# Arithmetic

Integers are words of 64 bits and every operation is exact: a result that does not fit is an error, as is a
division by zero. A variable stands for the expression it is bound to.
-/

namespace HornLoops

/-- Why an expression has no value. -/
inductive ArithmeticError where
  /-- A variable in the expression is unbound. -/
  | unbound
  /-- A name with that many arguments is not an operation. -/
  | notEvaluable (name : String) (arity : Nat)
  /-- A result does not fit in 64 bits. -/
  | overflow
  /-- A division by zero. -/
  | zeroDivisor
deriving DecidableEq, Repr

namespace ArithmeticError

/-- The wording of an error. -/
def message : ArithmeticError → String
  | .unbound => "instantiation error in arithmetic expression"
  | .notEvaluable name arity =>
    "type error: expected evaluable, found " ++ name ++ "/" ++ toString arity
  | .overflow => "evaluation error: int_overflow"
  | .zeroDivisor => "evaluation error: zero_divisor"

end ArithmeticError

namespace Arithmetic

/-- The value of an expression, or why it has none. -/
abbrev Value := Except ArithmeticError Int64

/-- The word for an exact result. -/
def narrow (exact : Int) : Value :=
  match word? exact with
  | some word => .ok word
  | none => .error .overflow

/-- The operations on one integer. -/
def unary (name : String) (x : Int64) : Value :=
  match name with
  | "-" => narrow (-x.toInt)
  | "+" => .ok x
  | "abs" => narrow x.toInt.natAbs
  | "sign" => narrow x.toInt.sign
  | _ => .error (.notEvaluable name 1)

/-- The quotient, rounded toward zero. -/
def quotient (x y : Int64) : Value :=
  if y = 0 then .error .zeroDivisor else narrow (x.toInt.tdiv y.toInt)

/-- The remainder with the sign of the dividend. There is one only where there is a quotient. -/
def remainder (x y : Int64) : Value := do
  let _ ← quotient x y
  narrow (x.toInt.tmod y.toInt)

/-- The remainder with the sign of the divisor. -/
def modulus (x y : Int64) : Value :=
  if y = 0 then .error .zeroDivisor else narrow (x.toInt.fmod y.toInt)

/-- The operations on two integers. -/
def binary (name : String) (x y : Int64) : Value :=
  match name with
  | "+" => narrow (x.toInt + y.toInt)
  | "-" => narrow (x.toInt - y.toInt)
  | "*" => narrow (x.toInt * y.toInt)
  | "//" => quotient x y
  | "rem" => remainder x y
  | "mod" => modulus x y
  | "min" => narrow (min x.toInt y.toInt)
  | "max" => narrow (max x.toInt y.toInt)
  | _ => .error (.notEvaluable name 2)

/-- The value of an expression, given the values of its variables. Arguments are evaluated from left to right
before the operation is looked at. -/
def evalWith (value : Nat → Value) : Term → Value
  | .int n => .ok n
  | .var id => value id
  | .atom name => .error (.notEvaluable name 0)
  | .compound name x [] => do unary name (← evalWith value x)
  | .compound name x [y] => do
    let left ← evalWith value x
    let right ← evalWith value y
    binary name left right
  | .compound name _ (_ :: _ :: rest) => .error (.notEvaluable name (rest.length + 3))

end Arithmetic

namespace Term

/-- The value of an expression without variables, if it has one. -/
def constant? (term : Term) : Option Int64 :=
  (Arithmetic.evalWith (fun _ => .error .unbound) term).toOption

end Term

namespace Bindings

/-- The value of an expression through a number of levels of bindings. -/
def evalWithin (bindings : Bindings) : Nat → Term → Arithmetic.Value
  | 0, term => Arithmetic.evalWith (fun _ => .error .unbound) term
  | levels + 1, term => Arithmetic.evalWith (fun id =>
    match bindings.lookup? id with
    | some value => evalWithin bindings levels value
    | none => .error .unbound) term

/-- The value of an expression under the bindings. -/
def eval (bindings : Bindings) (term : Term) : Arithmetic.Value :=
  bindings.evalWithin bindings.size term

end Bindings

end HornLoops
