import HornLoops.Arithmetic
import HornLoops.Loop.Error
import HornLoops.Reader.SyntaxError

/-!
# Errors of a run

A run can fail while a text is read, while a loop is compiled and while goals are solved. Apart from that it can
be stopped because it used up the bound that it was given, which is not an error of the program.
-/

namespace HornLoops

/-- Where a value is needed that is not known. -/
inductive Need where
  /-- A goal to solve. -/
  | goal
  /-- A goal to be called with further arguments. -/
  | callTarget
  /-- The head of a clause. -/
  | clauseHead
  /-- An argument of a predicate that is built in. -/
  | builtin (name : String) (arity : Nat)
deriving DecidableEq, Repr

namespace Need

/-- The wording of a need. -/
def text : Need → String
  | .goal => "goal"
  | .callTarget => "call/N"
  | .clauseHead => "clause head"
  | .builtin name arity => name ++ "/" ++ toString arity

end Need

/-- What kind of value is needed. -/
inductive Expected where
  /-- A goal or a clause head. -/
  | callable
  /-- An integer. -/
  | integer
  /-- An atom. -/
  | atom
  /-- A compound. -/
  | compound
  /-- A list with at least one item. -/
  | nonEmptyList
  /-- An integer that is not negative. -/
  | notNegative
deriving DecidableEq, Repr

namespace Expected

/-- The wording of an expectation. -/
def text : Expected → String
  | .callable => "callable"
  | .integer => "integer"
  | .atom => "atom"
  | .compound => "compound"
  | .nonEmptyList => "non-empty list"
  | .notNegative => "not_less_than_zero"

end Expected

/-- Why a run failed. -/
inductive RunError where
  /-- A text could not be read. -/
  | reading (error : SyntaxError)
  /-- A loop could not be compiled. -/
  | loop (error : LoopError)
  /-- An expression has no value. -/
  | arithmetic (error : ArithmeticError)
  /-- A value is not known. -/
  | unbound (need : Need)
  /-- A value is of the wrong kind. -/
  | mismatch (expected : Expected) (culprit : Term)
  /-- The successor of the largest word. -/
  | successorOverflow
  /-- There is no predicate with a name and number of arguments. -/
  | unknownProcedure (name : String) (arity : Nat)
  /-- Calls are nested too deeply. -/
  | depthLimit (limit : Nat)
deriving DecidableEq, Repr

namespace RunError

/-- The wording of an error. -/
def message : RunError → String
  | .reading error => error.message
  | .loop error => error.message
  | .arithmetic error => error.message
  | .unbound need => "instantiation error in " ++ need.text
  | .mismatch expected culprit =>
    "type error: expected " ++ expected.text ++ ", found " ++ culprit.text
  | .successorOverflow => "evaluation error: integer overflow"
  | .unknownProcedure name arity => "unknown procedure " ++ name ++ "/" ++ toString arity
  | .depthLimit limit => "call depth limit of " ++ toString limit ++ " exceeded"

end RunError

/-- Why a run stopped without an answer. -/
inductive Stop where
  /-- It failed. -/
  | error (error : RunError)
  /-- It used up its bound. -/
  | exhausted
deriving DecidableEq, Repr

namespace Stop

/-- The wording of a stop. -/
def message : Stop → String
  | .error cause => cause.message
  | .exhausted => "search bound exhausted"

end Stop

end HornLoops
