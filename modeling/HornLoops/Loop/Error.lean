import HornLoops.Term.Text

/-!
# Errors of loop specifications

What can be wrong with the iterators of a loop. An error holds the iterator that it is about.
-/

namespace HornLoops

/-- The ways in which a specification cannot be turned into a loop. -/
inductive LoopFault where
  /-- A conjunct of the specification is not an iterator. -/
  | unknownIterator
  /-- The step of a counting loop is zero. -/
  | zeroStep
  /-- The step of a counting loop is not a constant. -/
  | unsupportedStep
  /-- A bound of a counting loop is not a constant although its step is neither `1` nor `-1`. -/
  | unsupportedBound
  /-- A parameter is not a variable. -/
  | paramNotVariable
  /-- The stop value of a counting loop does not fit in a word. -/
  | boundOverflow
deriving DecidableEq, Repr

namespace LoopFault

/-- The wording of a fault, up to the iterator. -/
def message : LoopFault → String
  | .unknownIterator => "unknown loop iterator: "
  | .zeroStep => "zero step in "
  | .unsupportedStep => "step must be a constant in "
  | .unsupportedBound => "only steps of 1 and -1 are supported with a non-constant bound in "
  | .paramNotVariable => "param/N expects variables: "
  | .boundOverflow => "loop bound out of integer range in "

end LoopFault

/-- A fault and the iterator that has it. -/
structure LoopError where
  /-- What is wrong. -/
  fault : LoopFault
  /-- The iterator as a term. -/
  culprit : Term
deriving DecidableEq, Repr

namespace LoopError

/-- The wording of an error. -/
def message (error : LoopError) : String := error.fault.message ++ error.culprit.text

end LoopError

end HornLoops
