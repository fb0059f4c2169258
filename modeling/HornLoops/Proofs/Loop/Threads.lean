import HornLoops.Loop.Plan
import Mathlib

/-!
# Threads of iterators

An iterator has threads in a few cases, and in each of them it is known what they are and which variables are taken for
them. So what holds of all threads is shown case by case. Every iterator has the same argument positions in all the calls
of a loop: the first one, the one that ends the loop, the one that starts an iteration and the one after it.
-/

namespace HornLoops

/-- Something holds of every value that a computation comes to. -/
def Yields {ε α : Type} (holds : α → Prop) (action : Supplied ε α) : Prop :=
  ∀ next value after, action next = .ok value after → holds value

namespace Yields

variable {ε α β : Type} {holds : β → Prop}

theorem pure {value : β} (result : holds value) : Yields (ε := ε) holds (Pure.pure value) := by
  rintro next _ _ ⟨rfl, rfl⟩
  exact result

theorem bind {first : α → Prop} {action : Supplied ε α} {rest : α → Supplied ε β}
    (begins : Yields first action) (results : ∀ value, first value → Yields holds (rest value)) :
    Yields holds (action >>= rest) := by
  intro next value after ended
  obtain ⟨first, between, begun, ended⟩ := exists_of_bind ended
  exact results first (begins next first between begun) between value after ended

end Yields

/-! ## Cases -/

namespace LoopIterator

open Goal

/-- The threads of a counter whose last value is known. -/
def closedCounter (now later : Term) (start stop step : Int64) : Threads where
  initial := [.int start]
  terminal := [.int stop]
  head := [now]
  steps := [evaluate later (plus now step)]
  call := [later]

/-- The threads of a counter whose last value is computed before the loop, with three variables of their own. -/
def openCounter (now later start : Term) (step : Int64) (prelude : List Term) (limit : Term) (next : Nat) :
    Threads where
  initial := [start, .var next]
  terminal := [.var (next + 1), .var (next + 1)]
  prelude := prelude ++ [limit]
  head := [now, .var (next + 2)]
  steps := [evaluate later (plus now step)]
  call := [later, .var (next + 2)]

/-- The threads of an iterator over arguments, with six variables of their own. -/
def argumentThreads (element structured : Term) (position : Option Term) (limit : Term) (prelude : List Term)
    (next : Nat) : Threads where
  initial := [structured, .int 1, limit]
  terminal := [.var (next + 1), .var next, .var next]
  prelude := prelude
  head := [.var (next + 2), .var (next + 3), .var (next + 5)]
  steps := .build "arg" [.var (next + 3), .var (next + 2), element] ::
    (position.toList.map fun position => Term.binary "=" position (.var (next + 3))) ++
    [evaluate (.var (next + 4)) (plus (.var (next + 3)) 1)]
  call := [.var (next + 2), .var (next + 4), .var (next + 5)]

/-- The cases in which an iterator has threads, with the variables that are taken for them. -/
inductive Draws (next : Nat) : LoopIterator → Threads → Nat → Prop
  | elements (element list : Term) : Draws next (.forEach element list)
      { initial := [list], terminal := [.nil], head := [.cons element (.var next)], call := [.var next] } (next + 1)
  | arguments (element : Term) {structured : Term} (position : Option Term) (known : structured.isVar = false) :
      Draws next (.forEachArg element structured position)
        (argumentThreads element structured position (.int (Int64.ofNat (structured.args.length + 1))) [] next) (next + 6)
  | unknownArguments (element : Term) (id : Nat) (position : Option Term) :
      Draws next (.forEachArg element (.var id) position)
        (argumentThreads element (.var id) position (.var (next + 1))
          [.build "functor" [.var id, .var (next + 2), .var next], evaluate (.var (next + 1)) (plus (.var next) 1)]
          (next + 3)) (next + 9)
  | range (index : Term) {first last step : Term} {start finish value stop : Int64}
      (begins : first.constant? = some start) (ends : last.constant? = some finish) (steps : step.constant? = some value)
      (moves : value ≠ 0) (stops : stopBound start finish value = .ok stop) :
      Draws next (.range index first last step) (closedCounter index (.var next) start stop value) (next + 1)
  | rangeTo (index : Term) {first last step : Term} {start value : Int64} {function : String}
      (begins : first.constant? = some start) (ends : last.constant? = none) (steps : step.constant? = some value)
      (unit : value = 1 ∧ function = "max" ∨ value = -1 ∧ function = "min") :
      Draws next (.range index first last step)
        (openCounter index (.var next) (.int start) value []
          (evaluate (.var (next + 1)) (.binary function (.int start) (plus last value))) (next + 1)) (next + 4)
  | rangeFrom (index : Term) {first last step : Term} {value : Int64} {function : String}
      (begins : first.constant? = none) (steps : step.constant? = some value)
      (unit : value = 1 ∧ function = "max" ∨ value = -1 ∧ function = "min") :
      Draws next (.range index first last step)
        (openCounter index (.var next) (.var (next + 1)) value [evaluate (.var (next + 1)) first]
          (evaluate (.var (next + 2)) (.binary function (.var (next + 1)) (plus last value))) (next + 2)) (next + 5)
  | count (index : Term) {first max : Term} {value start limit : Int64} (begins : first.constant? = some value)
      (before : word? (value.toInt - 1) = some start) (ends : max.constant? = some limit) :
      Draws next (.count index first max)
        (closedCounter (.var next) index start (if start.toInt ≤ limit.toInt then limit else start) 1) (next + 1)
  | countTo (index : Term) {first max : Term} {value start : Int64} (begins : first.constant? = some value)
      (before : word? (value.toInt - 1) = some start) (ends : max.constant? = none) :
      Draws next (.count index first max)
        (openCounter (.var next) index (.int start) 1 [] (openLimit (.var (next + 1)) (.int start) max) (next + 1))
        (next + 4)
  | countFrom (index : Term) {first max : Term} (begins : first.constant? = none) :
      Draws next (.count index first max)
        (openCounter (.var (next + 1)) index (.var next) 1 [evaluate (.var next) (plus first (-1))]
          (match max.constant? with
            | some limit => evaluate (.var (next + 2)) (.binary "max" (.var next) (.int limit))
            | none => openLimit (.var (next + 2)) (.var next) max) (next + 2)) (next + 5)
  | value (first current following : Term) {last : Term} (ground : last.isGround = true) :
      Draws next (.fromTo first current following last)
        { initial := [first], terminal := [last], head := [current], call := [following] } next
  | openValue (first current following : Term) {last : Term} (ground : last.isGround = false) :
      Draws next (.fromTo first current following last)
        { initial := [first, last], terminal := [.var next, .var next], head := [current, .var (next + 1)]
          call := [following, .var (next + 1)] } (next + 2)
  | params (vars : List Nat) : Draws next (.param vars) (threadParams vars) next

variable {next after : Nat} {iterator : LoopIterator} {threads : Threads}

/-- An iterator has threads in these cases. -/
theorem Draws.threads_eq (draws : Draws next iterator threads after) : iterator.threads next = .ok threads after := by
  cases draws with
  | elements | unknownArguments | params => rfl
  | @arguments element structured position known =>
    cases structured with
    | var id => contradiction
    | int value | atom name | compound name first rest => rfl
  | range index begins ends steps moves stops =>
    simp [LoopIterator.threads, threadRange, constantStep, begins, ends, steps, moves, stops]
    rfl
  | rangeTo index begins ends steps unit =>
    rcases unit with ⟨rfl, rfl⟩ | ⟨rfl, rfl⟩ <;>
    · simp [LoopIterator.threads, threadRange, constantStep, openEdge, settled, begins, ends, steps]
      rfl
  | rangeFrom index begins steps unit =>
    rcases unit with ⟨rfl, rfl⟩ | ⟨rfl, rfl⟩ <;>
    · simp [LoopIterator.threads, threadRange, constantStep, openEdge, settled, begins, steps]
      rfl
  | count index begins before ends =>
    simp [LoopIterator.threads, threadCount, countStart, begins, before, ends]
    rfl
  | countTo index begins before ends =>
    simp [LoopIterator.threads, threadCount, countStart, begins, before, ends]
    rfl
  | @countFrom index first max begins =>
    simp [LoopIterator.threads, threadCount, countStart, begins]
    cases max.constant? <;> rfl
  | value first current following ground =>
    simp [LoopIterator.threads, threadValue, ground]
    rfl
  | openValue first current following ground =>
    simp [LoopIterator.threads, threadValue, ground]
    rfl

/-- A step that is constant and does not stand still is needed for a range, and if the stop value is to be computed, it is
a single one. -/
theorem exists_draws_range {index first last step : Term}
    (threaded : (LoopIterator.range index first last step).threads next = .ok threads after) :
    ∃ threads after, Draws next (.range index first last step) threads after := by
  simp only [LoopIterator.threads, threadRange, constantStep] at threaded
  cases steps : step.constant? with
  | none =>
    rw [steps] at threaded
    contradiction
  | some value =>
    by_cases zero : value = 0
    · simp only [steps, zero, if_true] at threaded
      contradiction
    · simp only [steps, zero, if_false, pure_bind] at threaded
      have unit (ends : first.constant? = none ∨ last.constant? = none) :
          ∃ function, value = 1 ∧ function = "max" ∨ value = -1 ∧ function = "min" := by
        by_cases one : value = 1
        · exact ⟨_, .inl ⟨one, rfl⟩⟩
        · by_cases other : value = -1
          · exact ⟨_, .inr ⟨other, rfl⟩⟩
          · rcases ends with ends | ends
            · simp only [openEdge, one, other, if_false, ends] at threaded
              contradiction
            · cases begins : first.constant? <;>
              · simp only [openEdge, one, other, if_false, begins, ends] at threaded
                contradiction
      cases begins : first.constant? with
      | none =>
        obtain ⟨function, unit⟩ := unit (.inl begins)
        exact ⟨_, _, .rangeFrom index begins steps unit⟩
      | some start =>
        cases ends : last.constant? with
        | none =>
          obtain ⟨function, unit⟩ := unit (.inr ends)
          exact ⟨_, _, .rangeTo index begins ends steps unit⟩
        | some finish =>
          cases stops : stopBound start finish value with
          | ok stop => exact ⟨_, _, .range index begins ends steps zero stops⟩
          | error error =>
            simp only [begins, ends, stops] at threaded
            cases error <;> contradiction

theorem exists_draws_count {index first max : Term}
    (threaded : (LoopIterator.count index first max).threads next = .ok threads after) :
    ∃ threads after, Draws next (.count index first max) threads after := by
  cases begins : first.constant? with
  | none => exact ⟨_, _, .countFrom index begins⟩
  | some value =>
    cases before : word? (value.toInt - 1) with
    | none =>
      simp only [LoopIterator.threads, threadCount, countStart, begins, before] at threaded
      contradiction
    | some start =>
      cases ends : max.constant? with
      | none => exact ⟨_, _, .countTo index begins before ends⟩
      | some limit => exact ⟨_, _, .count index begins before ends⟩

/-- An iterator has threads in these cases only. -/
theorem Draws.of_threads (threaded : iterator.threads next = .ok threads after) : Draws next iterator threads after := by
  have drawn : ∃ threads after, Draws next iterator threads after := by
    cases iterator with
    | forEach element list => exact ⟨_, _, .elements element list⟩
    | forEachArg element structured position =>
      cases structured with
      | var id => exact ⟨_, _, .unknownArguments element id position⟩
      | _ => exact ⟨_, _, .arguments element position rfl⟩
    | range index first last step => exact exists_draws_range threaded
    | count index first max => exact exists_draws_count threaded
    | fromTo first current following last =>
      cases ground : last.isGround with
      | true => exact ⟨_, _, .value first current following ground⟩
      | false => exact ⟨_, _, .openValue first current following ground⟩
    | param vars => exact ⟨_, _, .params vars⟩
  obtain ⟨threads', after', draws⟩ := drawn
  rw [draws.threads_eq] at threaded
  cases threaded
  exact draws

end LoopIterator

/-! ## Positions -/

variable {spec : LoopSpec} {specs : Term} {next after : Nat} {error : LoopError}

/-- What holds of the threads of all iterators holds of the threads of a loop. -/
theorem LoopSpec.yields_threads {holds : Threads → Prop} (none : holds {})
    (append : ∀ {left right}, holds left → holds right → holds (left.append right))
    (each : ∀ iterator ∈ spec.iterators, Yields holds iterator.threads) : Yields holds spec.threads := by
  rw [threads]
  generalize spec.iterators = iterators at each
  induction iterators with
  | nil => exact .pure none
  | cons iterator iterators ih =>
    obtain ⟨here, others⟩ := List.forall_mem_cons.mp each
    exact here.bind fun _ first => (ih others).bind fun _ rest => .pure (append first rest)

/-- Whether all calls have the same number of arguments. -/
def Threads.Aligned (threads : Threads) : Prop :=
  threads.terminal.length = threads.arity ∧ threads.head.length = threads.arity ∧
    threads.call.length = threads.arity

theorem Threads.Aligned.append {left right : Threads} (first : left.Aligned) (second : right.Aligned) :
    (left.append right).Aligned := by
  simp only [Aligned, arity, Threads.append, List.length_append] at *
  omega

/-- An iterator has the same positions in all calls. -/
theorem LoopIterator.aligned_threads (iterator : LoopIterator) : Yields Threads.Aligned iterator.threads := by
  intro next threads after threaded
  cases Draws.of_threads threaded <;> exact ⟨rfl, rfl, rfl⟩

/-- All calls of a loop have the same number of arguments. -/
theorem LoopSpec.aligned_threads (spec : LoopSpec) : Yields Threads.Aligned spec.threads :=
  yields_threads ⟨rfl, rfl, rfl⟩ .append fun iterator _ => iterator.aligned_threads

/-! ## Plans -/

theorem planLoop_eq_ok {threads : Threads} (read : LoopSpec.ofTerm specs = .ok spec)
    (threaded : spec.threads next = .ok threads after) (body : Term) :
    planLoop specs body next = .ok (threads.plan body) after := by
  simp only [planLoop, read, Bind.bind, EStateM.bind, MonadExcept.ofExcept, Pure.pure, EStateM.pure, threaded]

theorem planLoop_unread (read : LoopSpec.ofTerm specs = .error error) (body : Term) (next : Nat) :
    planLoop specs body next = .error error next := by
  simp only [planLoop, read, Bind.bind, EStateM.bind, MonadExcept.ofExcept]
  rfl

theorem planLoop_unthreaded (read : LoopSpec.ofTerm specs = .ok spec)
    (threaded : spec.threads next = .error error after) (body : Term) :
    planLoop specs body next = .error error after := by
  simp only [planLoop, read, Bind.bind, EStateM.bind, MonadExcept.ofExcept, Pure.pure, EStateM.pure, threaded]

theorem exists_threads_of_planLoop {body : Term} {plan : LoopPlan} (planned : planLoop specs body next = .ok plan after) :
    ∃ spec threads, LoopSpec.ofTerm specs = .ok spec ∧ spec.threads next = .ok threads after ∧
      plan = threads.plan body := by
  cases read : LoopSpec.ofTerm specs with
  | error error => simp [planLoop_unread read body next] at planned
  | ok spec =>
    cases threaded : spec.threads next with
    | error error finish => simp [planLoop_unthreaded read threaded body] at planned
    | ok threads finish =>
      rw [planLoop_eq_ok read threaded body] at planned
      obtain ⟨rfl, rfl⟩ := planned
      exact ⟨spec, threads, rfl, threaded, rfl⟩

end HornLoops
