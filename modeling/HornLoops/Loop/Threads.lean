import HornLoops.Arithmetic
import HornLoops.Loop.Params
import HornLoops.Loop.StopBound
import HornLoops.Supply

/-!
# Threads of a loop

A loop is carried out by calls with a fixed number of arguments. Each iterator contributes a group of argument
positions, and its thread says for these positions what the first call passes, what a call has to match
for the loop to end, what it has to match for another iteration, what is computed before the body, and
what is passed to the next call. Goals that have to run before the first call make up the prelude.

Bounds that are constant are computed here, once and for all. The order in which new variables are taken
is fixed, because their numbers can be seen in listings and answers.
-/

namespace HornLoops

/-- What the iterators of a loop contribute to its calls. -/
structure Threads where
  /-- Arguments of the first call. -/
  initial : List Term := []
  /-- Arguments that end the loop. -/
  terminal : List Term := []
  /-- Goals before the first call. -/
  prelude : List Term := []
  /-- Arguments that start an iteration. -/
  head : List Term := []
  /-- Goals at the start of an iteration, before the body. -/
  steps : List Term := []
  /-- Arguments of the call after an iteration. -/
  call : List Term := []
deriving DecidableEq, Repr

namespace Threads

/-- The number of arguments. -/
def arity (threads : Threads) : Nat := threads.initial.length

/-- Puts the positions of one thread before those of another. -/
def append (left right : Threads) : Threads where
  initial := left.initial ++ right.initial
  terminal := left.terminal ++ right.terminal
  prelude := left.prelude ++ right.prelude
  head := left.head ++ right.head
  steps := left.steps ++ right.steps
  call := left.call ++ right.call

end Threads

namespace Goal

/-- The goal that evaluates an expression. -/
def evaluate (target expression : Term) : Term := .binary "is" target expression

/-- The expression that adds a constant, written as a subtraction if the constant is negative. The least
word has no counterpart and is added as it is. -/
def plus (term : Term) (constant : Int64) : Term :=
  match word? (-constant.toInt) with
  | some magnitude =>
    if constant.toInt < 0 then .binary "-" term (.int magnitude)
    else .binary "+" term (.int constant)
  | none => .binary "+" term (.int constant)

end Goal

open Goal Supplied

namespace LoopIterator

/-- A computation that may take new variables and may fail with an error about an iterator. -/
abbrev Threading := Supplied LoopError

/-- The error with a fault of an iterator. -/
def fault (iterator : LoopIterator) (fault : LoopFault) : LoopError := ⟨fault, iterator.toTerm⟩

/-- The thread of an iterator over the elements of a list. -/
def threadElements (element list : Term) : Threading Threads := do
  let tail ← fresh
  return { initial := [list], terminal := [.nil], head := [.cons element tail], call := [tail] }

/-- The number after the last argument position of a term, and the goals that compute it. -/
def argumentLimit (structured : Term) : Threading (Term × List Term) := do
  match structured with
  | .var _ =>
    let arity ← fresh
    let limit ← fresh
    let name ← fresh
    return (limit, [.build "functor" [structured, name, arity], evaluate limit (plus arity 1)])
  | _ => return (.int (Int64.ofNat (structured.args.length + 1)), [])

/-- The thread of an iterator over the arguments of a compound. -/
def threadArguments (element structured : Term) (position : Option Term) : Threading Threads := do
  let (limit, prelude) ← argumentLimit structured
  let last ← fresh
  let finished ← fresh
  let current ← fresh
  let index ← fresh
  let next ← fresh
  let bound ← fresh
  let expose := position.toList.map fun position => Term.binary "=" position index
  return {
    initial := [structured, .int 1, limit]
    terminal := [finished, last, last]
    prelude := prelude
    head := [current, index, bound]
    steps := .build "arg" [index, current, element] :: expose ++ [evaluate next (plus index 1)]
    call := [current, next, bound] }

/-- The value of an expression as an integer if it is constant, and otherwise as a variable that a goal
computes. -/
def settled (expression : Term) : Threading (Term × List Term) := do
  match expression.constant? with
  | some value => return (.int value, [])
  | none =>
    let value ← fresh
    return (value, [evaluate value expression])

/-- The step of a counting iterator. -/
def constantStep (iterator : LoopIterator) (step : Term) : Threading Int64 := do
  match step.constant? with
  | some step => if step = 0 then throw (iterator.fault .zeroStep) else return step
  | none => throw (iterator.fault .unsupportedStep)

/-- The function and the expression past the last value that give the stop value of a loop with a bound that
is not constant. -/
def openEdge (iterator : LoopIterator) (last : Term) (step : Int64) : Threading (String × Term) := do
  if step = 1 then return ("max", plus last 1)
  else if step = -1 then return ("min", plus last (-1))
  else throw (iterator.fault .unsupportedBound)

/-- The thread of an iterator over a range of integers. -/
def threadRange (iterator : LoopIterator) (index first last step : Term) : Threading Threads := do
  let step ← iterator.constantStep step
  let next ← fresh
  match first.constant?, last.constant? with
  | some start, some finish =>
    match stopBound start finish step with
    | .error .zeroStep => throw (iterator.fault .zeroStep)
    | .error .overflow => throw (iterator.fault .boundOverflow)
    | .ok stop =>
      return {
        initial := [.int start]
        terminal := [.int stop]
        head := [index]
        steps := [evaluate next (plus index step)]
        call := [next] }
  | _, _ =>
    let (function, edge) ← iterator.openEdge last step
    let (start, prelude) ← settled first
    let stop ← fresh
    let final ← fresh
    let limit ← fresh
    return {
      initial := [start, stop]
      terminal := [final, final]
      prelude := prelude ++ [evaluate stop (.binary function start edge)]
      head := [index, limit]
      steps := [evaluate next (plus index step)]
      call := [next, limit] }

/-- The value before the first one of a counter, and the goals that compute it. -/
def countStart (iterator : LoopIterator) (first : Term) : Threading (Term × List Term) := do
  match first.constant? with
  | some value =>
    match word? (value.toInt - 1) with
    | some start => return (.int start, [])
    | none => throw (iterator.fault .boundOverflow)
  | none =>
    let start ← fresh
    return (start, [evaluate start (plus first (-1))])

/-- The goal that finds the last value of a counter whose limit is not constant. A limit that is known when
the loop starts is treated like a constant one; a limit that is not known then is bound by the loop. -/
def openLimit (stop start max : Term) : Term :=
  .binary ";"
    (.binary "->" (.unary "var" max) (.binary "=" stop max))
    (evaluate stop (.binary "max" start max))

/-- The thread of a counter whose last value is computed before the loop. -/
def threadOpenCount (index start previous : Term) (prelude : List Term) (limit : Term → Term) :
    Threading Threads := do
  let stop ← fresh
  let final ← fresh
  let bound ← fresh
  return {
    initial := [start, stop]
    terminal := [final, final]
    prelude := prelude ++ [limit stop]
    head := [previous, bound]
    steps := [evaluate index (plus previous 1)]
    call := [index, bound] }

/-- The thread of a counter. -/
def threadCount (iterator : LoopIterator) (index first max : Term) : Threading Threads := do
  let (start, prelude) ← iterator.countStart first
  let previous ← fresh
  match max.constant?, start with
  | some limit, .int value =>
    return {
      initial := [start]
      terminal := [.int (if value.toInt ≤ limit.toInt then limit else value)]
      prelude := prelude
      head := [previous]
      steps := [evaluate index (plus previous 1)]
      call := [index] }
  | some limit, _ =>
    threadOpenCount index start previous prelude fun stop =>
      evaluate stop (.binary "max" start (.int limit))
  | none, _ => threadOpenCount index start previous prelude fun stop => openLimit stop start max

/-- The thread of a value that is handed on. -/
def threadValue (first current next last : Term) : Threading Threads := do
  if last.isGround then
    return { initial := [first], terminal := [last], head := [current], call := [next] }
  let final ← fresh
  let limit ← fresh
  return {
    initial := [first, last]
    terminal := [final, final]
    head := [current, limit]
    call := [next, limit] }

/-- The thread of parameters. -/
def threadParams (vars : List Nat) : Threads :=
  let shared := vars.map Term.var
  { initial := shared, terminal := shared, head := shared, call := shared }

/-- The thread of an iterator. -/
def threads (iterator : LoopIterator) : Threading Threads :=
  match iterator with
  | .forEach element list => threadElements element list
  | .forEachArg element structured index => threadArguments element structured index
  | .range index first last step => iterator.threadRange index first last step
  | .count index first max => iterator.threadCount index first max
  | .fromTo first current next last => threadValue first current next last
  | .param vars => return threadParams vars

end LoopIterator

namespace Threads

/-- The threads of iterators, side by side. -/
def ofIterators : List LoopIterator → LoopIterator.Threading Threads
  | [] => return {}
  | iterator :: iterators => do
    let first ← iterator.threads
    let rest ← ofIterators iterators
    return first.append rest

end Threads

namespace LoopSpec

/-- The threads of all iterators of a loop. -/
def threads (spec : LoopSpec) : LoopIterator.Threading Threads := Threads.ofIterators spec.iterators

end LoopSpec

end HornLoops
