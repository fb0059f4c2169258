import HornLoops.Bindings.Unify
import HornLoops.Machine.Error

/-!
# Predicates that are built in

Each of these predicates succeeds at most once. What it does is described by an effect, which depends on the bindings
but does not change them: whether the predicate fails, which terms it unifies with which, or what it writes.
Terms that it builds contain new variables, numbered from the next free number on.
-/

namespace HornLoops

/-- What a predicate that is built in asks for. -/
inductive Effect where
  /-- To fail. -/
  | refuse
  /-- To succeed. -/
  | accept
  /-- To take new variables and to unify two sequences of terms. -/
  | equate (taken : Nat) (lefts rights : List Term)
  /-- To write a text. -/
  | write (text : String)
deriving DecidableEq, Repr

/-- A predicate with its arguments. The bound is for unification. -/
abbrev Builtin := Nat → Bindings → Except Stop Effect

namespace Builtin

/-- Stops with an error. -/
def fault (error : RunError) : Except Stop Effect := .error (.error error)

/-- Succeeds if a condition holds. -/
def test (holds : Bool) : Effect := if holds then .accept else .refuse

/-- Unifies two terms. -/
def equal (left right : Term) : Effect := .equate 0 [left] [right]

/-- Some new variables. -/
def newVars (bindings : Bindings) (count : Nat) : List Term :=
  (List.range count).map fun offset => .var (bindings.size + offset)

/-- The value of an expression. -/
def evaluated (bindings : Bindings) (expression : Term) : Except Stop Int64 :=
  (bindings.eval expression).mapError fun error => .error (.arithmetic error)

/-- A term with its bound variables replaced. -/
def resolved (bindings : Bindings) (term : Term) : Except Stop Term :=
  if bindings.ends term then .ok (bindings.resolve term) else .error .exhausted

/-- A test of a term at the end of its chain of variables. -/
def inspect (holds : Term → Bool) (term : Term) : Builtin := fun _ bindings =>
  .ok (test (holds (bindings.walk term)))

/-- A comparison of the values of two expressions. -/
def compare (holds : Int → Int → Bool) (left right : Term) : Builtin := fun _ bindings => do
  let x ← evaluated bindings left
  let y ← evaluated bindings right
  return test (holds x.toInt y.toInt)

/-- Whether two terms cannot be unified. -/
def differ (left right : Term) : Builtin := fun fuel bindings =>
  match (bindings.unify fuel left right).1 with
  | some unified => .ok (test !unified)
  | none => .error .exhausted

/-- A test of whether two terms are the same under the bindings. -/
def compareTerms (holds : Bool → Bool) (left right : Term) : Builtin := fun _ bindings => do
  let x ← resolved bindings left
  let y ← resolved bindings right
  return test (holds (x = y))

/-- `functor/3`: name and number of arguments of a term, or a term with new variables for arguments. -/
def nameAndArity (term name arity : Term) : Builtin := fun _ bindings =>
  match bindings.walk term with
  | .var _ =>
    match bindings.walk arity with
    | .int count =>
      let name := bindings.walk name
      if count = 0 then .ok (equal term name)
      else
        match name with
        | .atom name =>
          let taken := count.toInt.toNat
          .ok (.equate taken [term] [.build name (newVars bindings taken)])
        | _ => fault (.mismatch .atom name)
    | .var _ => fault (.unbound (.builtin "functor" 3))
    | other => fault (.mismatch .integer other)
  | .compound functor _ rest =>
    .ok (.equate 0 [name, arity] [.atom functor, .int (Int64.ofNat (rest.length + 1))])
  | atomic => .ok (.equate 0 [name, arity] [atomic, .int 0])

/-- `arg/3`: the argument at a position, counted from one. -/
def argument (index term value : Term) : Builtin := fun _ bindings =>
  match bindings.walk index with
  | .int position =>
    match bindings.walk term with
    | .compound _ first rest =>
      if position.toInt ≤ 0 then .ok .refuse
      else
        match (first :: rest)[position.toInt.toNat - 1]? with
        | some found => .ok (equal value found)
        | none => .ok .refuse
    | _ => fault (.mismatch .compound term)
  | .var _ => fault (.unbound (.builtin "arg" 3))
  | other => fault (.mismatch .integer other)

/-- The term with a name and arguments that are given as one list. -/
def ofItems (whole : Term) : List Term → Except Stop Term
  | [] => .error (.error (.mismatch .nonEmptyList whole))
  | [single] => .ok single
  | .atom name :: args => .ok (.build name args)
  | other :: _ => .error (.error (.mismatch .atom other))

/-- `=../2`: a term and the list of its name and arguments. -/
def nameAndArguments (term list : Term) : Builtin := fun _ bindings =>
  match bindings.walk term with
  | .var _ => do
    let whole ← resolved bindings list
    match whole.listItems? with
    | some items => return equal term (← ofItems whole items)
    | none => fault (.unbound (.builtin "=.." 2))
  | .compound name first rest => .ok (equal list (.list (.atom name :: first :: rest)))
  | atomic => .ok (equal list (.list [atomic]))

/-- `length/2`: the number of items of a list, or a list of that many new variables. -/
def listLength (list length : Term) : Builtin := fun _ bindings => do
  match (← resolved bindings list).listItems? with
  | some items => return equal length (.int (Int64.ofNat items.length))
  | none =>
    match bindings.walk length with
    | .int count =>
      if count.toInt < 0 then .ok .refuse
      else
        let taken := count.toInt.toNat
        .ok (.equate taken [list] [.list (newVars bindings taken)])
    | .var _ => fault (.unbound (.builtin "length" 2))
    | other => fault (.mismatch .integer other)

/-- `atom_length/2`: the number of characters of an atom. -/
def atomLength (atom length : Term) : Builtin := fun _ bindings =>
  match bindings.walk atom with
  | .atom name => .ok (equal length (.int (Int64.ofNat name.length)))
  | .var _ => fault (.unbound (.builtin "atom_length" 2))
  | other => fault (.mismatch .atom other)

/-- `succ/2`: an integer that is not negative and the one after it. -/
def successor (before after : Term) : Builtin := fun _ bindings =>
  match bindings.walk before, bindings.walk after with
  | .int value, _ =>
    if value.toInt < 0 then fault (.mismatch .notNegative (.int value))
    else
      match word? (value.toInt + 1) with
      | some next => .ok (equal after (.int next))
      | none => fault .successorOverflow
  | .var id, .int value =>
    if value.toInt = 0 then .ok .refuse
    else if value.toInt < 0 then fault (.mismatch .notNegative (.var id))
    else .ok (equal before (.int (value - 1)))
  | .var _, .var _ => fault (.unbound (.builtin "succ" 2))
  | culprit, _ => fault (.mismatch .notNegative culprit)

/-- Writes a term with its atoms as they are. -/
def output (term : Term) (after : String) : Builtin := fun _ bindings => do
  return .write ((← resolved bindings term).plainText ++ after)

/-- `is_list/1`: whether a term is a proper list. -/
def isList (term : Term) : Builtin := fun _ bindings => do
  return test (← resolved bindings term).listItems?.isSome

/-- The predicate with a name and arguments, if it is built in. -/
def ofCall? (name : String) (args : List Term) : Option Builtin :=
  match name, args with
  | "=", [left, right] => some fun _ _ => .ok (equal left right)
  | "\\=", [left, right] => some (differ left right)
  | "==", [left, right] => some (compareTerms id left right)
  | "\\==", [left, right] => some (compareTerms not left right)
  | "is", [target, expression] => some fun _ bindings => do
    return equal target (.int (← evaluated bindings expression))
  | "=:=", [left, right] => some (compare (· == ·) left right)
  | "=\\=", [left, right] => some (compare (· != ·) left right)
  | "<", [left, right] => some (compare (· < ·) left right)
  | ">", [left, right] => some (compare (· > ·) left right)
  | "=<", [left, right] => some (compare (· ≤ ·) left right)
  | ">=", [left, right] => some (compare (· ≥ ·) left right)
  | "var", [term] => some (inspect Term.isVar term)
  | "nonvar", [term] => some (inspect (fun term => !term.isVar) term)
  | "integer", [term] => some (inspect (fun term => term.int?.isSome) term)
  | "atom", [term] => some (inspect (fun term => term.atom?.isSome) term)
  | "atomic", [term] => some (inspect (fun term => term.atom?.isSome || term.int?.isSome) term)
  | "compound", [term] => some (inspect (fun term => !term.args.isEmpty) term)
  | "is_list", [term] => some (isList term)
  | "functor", [term, name, arity] => some (nameAndArity term name arity)
  | "arg", [index, term, value] => some (argument index term value)
  | "=..", [term, list] => some (nameAndArguments term list)
  | "length", [list, length] => some (listLength list length)
  | "atom_length", [atom, length] => some (atomLength atom length)
  | "succ", [before, after] => some (successor before after)
  | "write", [term] => some (output term "")
  | "print", [term] => some (output term "")
  | "writeln", [term] => some (output term "\n")
  | "nl", [] => some fun _ _ => .ok (.write "\n")
  | _, _ => none

end Builtin

end HornLoops
