import HornLoops.Machine.Solve

/-!
# Runs that agree

Two runs are compared step by step. They agree if both come to an end in the same way: with values that are related, or
with errors of the same kind. One of the two runs may have less fuel, and nothing is claimed if it runs out of it.
-/

namespace HornLoops

/-! ## Kinds of errors -/

/-- The kinds of errors that a run can end with. -/
inductive ErrorKind where
  /-- A text could not be read. -/
  | reading
  /-- A loop has a fault. -/
  | loop (fault : LoopFault)
  /-- A value is not known. -/
  | instantiation
  /-- A value is of the wrong kind. -/
  | mismatch
  /-- A result does not exist or does not fit in a word. -/
  | evaluation
  /-- There is no such predicate. -/
  | unknownProcedure
  /-- Calls are nested too deeply. -/
  | depthLimit
deriving DecidableEq, Repr

/-- The kind of an error. -/
def RunError.kind : RunError → ErrorKind
  | .reading _ => .reading
  | .loop error => .loop error.fault
  | .arithmetic .unbound => .instantiation
  | .arithmetic (.notEvaluable _ _) => .mismatch
  | .arithmetic .overflow | .arithmetic .zeroDivisor => .evaluation
  | .unbound _ => .instantiation
  | .mismatch _ _ => .mismatch
  | .successorOverflow => .evaluation
  | .unknownProcedure _ _ => .unknownProcedure
  | .depthLimit _ => .depthLimit

/-- Stops of the same kind. -/
def Stop.Alike : Stop → Stop → Prop
  | .error left, .error right => left.kind = right.kind
  | .exhausted, .exhausted => True
  | _, _ => False

theorem Stop.Alike.symm {left right : Stop} (alike : left.Alike right) : right.Alike left := by
  cases left <;> cases right
  · exact Eq.symm alike
  · exact alike
  · exact alike
  · exact alike

/-! ## Fuel -/

/-- The run that may run out of fuel has no more of it than the other one. -/
def Fuels (excused : Bool) (fuel fuel' : Nat) : Prop := if excused then fuel ≤ fuel' else fuel' ≤ fuel

variable {excused : Bool} {fuel fuel' depth : Nat} {machine : Machine} {σ : Type}

/-- Induction over the fuels of two runs, of which the one that may run out of fuel has none left first. -/
@[elab_as_elim]
theorem Fuels.induct {motive : Nat → Nat → Prop} (first : excused = true → ∀ fuel', motive 0 fuel')
    (second : excused = false → ∀ fuel, motive fuel 0)
    (both : ∀ fuel fuel', Fuels excused fuel fuel' → motive fuel fuel' → motive (fuel + 1) (fuel' + 1))
    (fuels : Fuels excused fuel fuel') : motive fuel fuel' := by
  cases excused with
  | true =>
    have iff {fuel fuel' : Nat} : Fuels true fuel fuel' ↔ fuel ≤ fuel' := by simp [Fuels]
    induction fuel generalizing fuel' with
    | zero => exact first rfl fuel'
    | succ fuel ih =>
      have le := iff.mp fuels
      obtain ⟨fuel', rfl⟩ : ∃ rest, fuel' = rest + 1 := ⟨fuel' - 1, by omega⟩
      have fewer := iff.mpr (show fuel ≤ fuel' by omega)
      exact both fuel fuel' fewer (ih fewer)
  | false =>
    have iff {fuel fuel' : Nat} : Fuels false fuel fuel' ↔ fuel' ≤ fuel := by simp [Fuels]
    induction fuel' generalizing fuel with
    | zero => exact second rfl fuel
    | succ fuel' ih =>
      have le := iff.mp fuels
      obtain ⟨fuel, rfl⟩ : ∃ rest, fuel = rest + 1 := ⟨fuel - 1, by omega⟩
      have fewer := iff.mpr (show fuel' ≤ fuel by omega)
      exact both fuel fuel' fewer (ih fewer)

theorem Fuels.flip (fuels : Fuels excused fuel fuel') : Fuels (!excused) fuel' fuel := by
  cases excused <;> exact fuels

/-- Of two runs, the one with less fuel may run out of it. -/
theorem Fuels.of_decide (fuel fuel' : Nat) : Fuels (decide (fuel ≤ fuel')) fuel fuel' := by
  by_cases le : fuel ≤ fuel'
  · simp [Fuels, le]
  · simp only [Fuels, le, decide_false, Bool.false_eq_true, if_false]
    omega

/-! ## Results -/

/-- Results of two runs that agree: both come to an end in the same way, or the run that may run out of fuel has done
so. If both come to an end without a value, their last states are related. -/
inductive EndsAlike (excused : Bool) (stopped : Machine → Machine → Prop) {α β : Type}
    (holds : α → β → Machine → Machine → Prop) :
    EStateM.Result Stop Machine α → EStateM.Result Stop Machine β → Prop
  | ok {value : α} {value' : β} {left right : Machine} (result : holds value value' left right) :
      EndsAlike excused stopped holds (.ok value left) (.ok value' right)
  | stop {stop stop' : Stop} {left right : Machine} (alike : stop.Alike stop') (states : stopped left right) :
      EndsAlike excused stopped holds (.error stop left) (.error stop' right)
  | first {left : Machine} {result : EStateM.Result Stop Machine β} (lacks : excused = true) :
      EndsAlike excused stopped holds (.error .exhausted left) result
  | second {result : EStateM.Result Stop Machine α} {right : Machine} (lacks : excused = false) :
      EndsAlike excused stopped holds result (.error .exhausted right)

namespace EndsAlike

variable {excused : Bool} {stopped stopped' : Machine → Machine → Prop} {α β γ δ : Type}
  {holds : α → β → Machine → Machine → Prop} {holds' : γ → δ → Machine → Machine → Prop} {left right : Machine}

/-- Steps that agree make sequences that do. -/
theorem bind {action : Run α} {action' : Run β} {next : α → Run γ} {next' : β → Run δ}
    (begins : EndsAlike excused stopped holds (action left) (action' right))
    (rest : ∀ value value' left right, holds value value' left right →
      EndsAlike excused stopped holds' (next value left) (next' value' right)) :
    EndsAlike excused stopped holds' ((action >>= next) left) ((action' >>= next') right) := by
  simp only [Bind.bind, EStateM.bind]
  generalize action left = result at begins
  generalize action' right = result' at begins
  cases begins with
  | ok result => exact rest _ _ _ _ result
  | stop alike states => exact .stop alike states
  | first lacks => exact .first lacks
  | second lacks => exact .second lacks

section

variable {result : EStateM.Result Stop Machine α} {result' : EStateM.Result Stop Machine β}
  (agrees : EndsAlike excused stopped holds result result')
include agrees

/-- Weaker relations between values do no harm. -/
theorem imp {holds' : α → β → Machine → Machine → Prop}
    (weaker : ∀ value value' left right, holds value value' left right → holds' value value' left right) :
    EndsAlike excused stopped holds' result result' := by
  cases agrees with
  | ok result => exact .ok (weaker _ _ _ _ result)
  | stop alike states => exact .stop alike states
  | first lacks => exact .first lacks
  | second lacks => exact .second lacks

/-- Weaker relations between states do no harm. -/
theorem impStopped (weaker : ∀ left right, stopped left right → stopped' left right) :
    EndsAlike excused stopped' holds result result' := by
  cases agrees with
  | ok result => exact .ok result
  | stop alike states => exact .stop alike (weaker _ _ states)
  | first lacks => exact .first lacks
  | second lacks => exact .second lacks

/-- The two runs may change places. -/
theorem flip : EndsAlike (!excused) (fun right left => stopped left right)
    (fun value' value right left => holds value value' left right) result' result := by
  cases agrees with
  | ok result => exact .ok result
  | stop alike states => exact .stop alike.symm states
  | first lacks => exact .second (by rw [lacks]; rfl)
  | second lacks => exact .first (by rw [lacks]; rfl)

end

/-- Errors of the same kind. -/
theorem fail {error error' : RunError} (alike : error.kind = error'.kind) (states : stopped left right) :
    EndsAlike excused stopped holds ((Run.fail error : Run α) left) ((Run.fail error' : Run β) right) :=
  .stop alike states

end EndsAlike

/-! ## Steps of runs -/

theorem Run.get_bind {α : Type} (machine : Machine) (next : Machine → Run α) :
    (MonadState.get >>= next) machine = next machine machine := rfl

/-- Calls are not nested too deeply. -/
def Machine.Admits (machine : Machine) (depth : Nat) : Prop :=
  ∀ limit, machine.settings.depthLimit = some limit → depth < limit

theorem Machine.Admits.checkDepth (admits : machine.Admits depth) :
    Run.checkDepth depth machine = .ok () machine := by
  rw [Run.checkDepth, Run.get_bind]
  cases limited : machine.settings.depthLimit with
  | none => rfl
  | some limit =>
    have deep : ¬ limit ≤ depth := Nat.not_le_of_lt (admits limit limited)
    simp only [if_neg deep]
    rfl

theorem Machine.checkDepth_of_limit_le {limit : Nat} (limited : machine.settings.depthLimit = some limit)
    (deep : limit ≤ depth) : Run.checkDepth depth machine = .error (.error (.depthLimit limit)) machine := by
  rw [Run.checkDepth, Run.get_bind, limited]
  simp only [if_pos deep]
  rfl

namespace Run

variable {α : Type} (machine : Machine)

variable {fuel next : Nat} {β ε : Type} {value : α} {lefts rights : List Term} {after : Compilation}
  {wrap : ε → RunError} {action : Supplied ε α}

theorem walk_bind (term : Term) (next : Term → Run α) :
    (Run.walk term >>= next) machine = next (machine.bindings.walk term) machine := rfl

theorem mark_bind (next : Mark → Run α) : (Run.mark >>= next) machine = next machine.bindings.mark machine := rfl

theorem undoTo_bind (mark : Mark) (next : Unit → Run α) :
    (Run.undoTo mark >>= next) machine = next () { machine with bindings := machine.bindings.undoTo mark } := rfl

theorem newBarrier_bind (next : Nat → Run α) :
    (Run.newBarrier >>= next) machine =
      next (machine.barriers + 1) { machine with barriers := machine.barriers + 1 } := rfl

theorem take_bind (count : Nat) (next : Nat → Run α) :
    (Run.take count >>= next) machine =
      next machine.bindings.size
        { machine with bindings := machine.bindings.reserve (machine.bindings.size + count) } := rfl

theorem copyClause_bind (clause : Clause) (next : List Term × Term → Run α) :
    (Run.copyClause clause >>= next) machine =
      next (clause.instantiate machine.bindings.size)
        { machine with bindings := machine.bindings.reserve (machine.bindings.size + clause.width) } := rfl

theorem copyTemplate_bind (template : Template) (next : List Term → Run α) :
    (Run.copyTemplate template >>= next) machine =
      next (template.instantiate machine.bindings.size)
        { machine with bindings := machine.bindings.reserve (machine.bindings.size + template.width) } := rfl

theorem report_bind (names : List (String × Nat)) (diagnostics : List Diagnostic) (next : Unit → Run α) :
    (Run.report names diagnostics >>= next) machine = next ()
      { machine with warnings := machine.warnings ++ diagnostics.map (LoopWarning.ofDiagnostic names) } := rfl

theorem checkEnds_bind (terms : List Term) (next : Unit → Run α) :
    (Run.checkEnds terms >>= next) machine =
      if terms.all machine.bindings.ends then next () machine else .error .exhausted machine := by
  rw [Run.checkEnds, bind_assoc, get_bind]
  by_cases ended : terms.all machine.bindings.ends = true
  · simp only [ended, if_true]
    rfl
  · simp only [ended]
    rfl

theorem resolve_bind (term : Term) (next : Term → Run α) :
    (Run.resolve term >>= next) machine =
      if machine.bindings.ends term then next (machine.bindings.resolve term) machine
      else .error .exhausted machine := by
  rw [Run.resolve, bind_assoc, checkEnds_bind, List.all_cons, List.all_nil, Bool.and_true]
  rfl

theorem unifyAll_bind_some {unified : Bool} {after : Bindings}
    (ended : machine.bindings.unifyAll fuel lefts rights = (some unified, after)) (next : Bool → Run α) :
    (Run.unifyAll fuel lefts rights >>= next) machine = next unified { machine with bindings := after } := by
  simp only [Bind.bind, EStateM.bind, Run.unifyAll, ended]

theorem unifyAll_bind_none (stopped : (machine.bindings.unifyAll fuel lefts rights).1 = none) (next : Bool → Run α) :
    ∃ after, (Run.unifyAll fuel lefts rights >>= next) machine = .error .exhausted after := by
  simp only [Bind.bind, EStateM.bind, Run.unifyAll, stopped]
  exact ⟨_, rfl⟩

variable {machine}

theorem compiling_bind_ok {action : Compiler α}
    (ended : action ⟨machine.bindings.size, machine.procedures⟩ = .ok value after) (next : α → Run β) :
    (Run.compiling action >>= next) machine = next value
      { machine with bindings := machine.bindings.reserve after.next, procedures := after.procedures } := by
  simp only [Bind.bind, EStateM.bind, Run.compiling, ended]

theorem compiling_bind_error {action : Compiler α} {error : LoopError}
    (ended : action ⟨machine.bindings.size, machine.procedures⟩ = .error error after) (next : α → Run β) :
    (Run.compiling action >>= next) machine = .error (.error (.loop error))
      { machine with bindings := machine.bindings.reserve after.next, procedures := after.procedures } := by
  simp only [Bind.bind, EStateM.bind, Run.compiling, ended]

theorem supplied_bind_ok (ended : action machine.bindings.size = .ok value next) (rest : α → Run β) :
    (Run.supplied wrap action >>= rest) machine =
      rest value { machine with bindings := machine.bindings.reserve next } := by
  simp only [Bind.bind, EStateM.bind, Run.supplied, ended]

theorem supplied_bind_error {error : ε} (ended : action machine.bindings.size = .error error next) (rest : α → Run β) :
    (Run.supplied wrap action >>= rest) machine =
      .error (.error (wrap error)) { machine with bindings := machine.bindings.reserve next } := by
  simp only [Bind.bind, EStateM.bind, Run.supplied, ended]

end Run

/-- Where the program has no clauses, a procedure is called if there is one with the right number of arguments. -/
theorem Machine.callPredicate_of_named {name : String} {args : List Term} {procedure : Procedure}
    (free : machine.program.clausesFor name args.length = [])
    (found : machine.procedures.named? name = some procedure) (fuel : Nat) (solver : Solver) (depth : Nat)
    (k : Continuation σ) (acc : σ) :
    callPredicate fuel solver name args depth k acc machine =
      if procedure.arity = args.length then callProcedure fuel solver procedure args depth k acc machine
      else (Run.fail (.unknownProcedure name args.length) : Run (Outcome σ)) machine := by
  unfold callPredicate
  rw [Run.get_bind]
  simp only [free, found]
  split <;> rfl

/-! ## Signals -/

namespace Signal

/-- Signals of two runs correspond to each other if cuts do. -/
def ahead (lead : Nat) : Signal → Signal
  | .cut barrier => .cut (barrier + lead)
  | signal => signal

variable (lead barrier : Nat) (signal : Signal)

theorem beyond_ahead : (signal.ahead lead).beyond (barrier + lead) = (signal.beyond barrier).ahead lead := by
  cases signal with
  | more => rfl
  | halt => rfl
  | cut target =>
    by_cases own : target = barrier
    · simp [ahead, beyond, own]
    · simp [ahead, beyond, own]

theorem orCut_ahead : (signal.ahead lead).orCut (barrier + lead) = (signal.orCut barrier).ahead lead := by
  cases signal <;> rfl

theorem ahead_zero : signal.ahead 0 = signal := by cases signal <;> rfl

end Signal

/-! ## Turns of loops -/

open Machine

/-- One turn of a loop: whether the loop ends, a copy of the iteration, whether the arguments fit it, and what is done
then. -/
def turn {γ σ : Type} (ends : Run Bool) (copy : Run γ) (fits : γ → Run Bool) (proceed : γ → Nat → Continuation σ)
    (depth : Nat) (k : Continuation σ) : Continuation σ := fun acc => do
  Run.checkDepth depth
  let mark ← Run.mark
  if ← ends then
    let result ← k acc
    Run.undoTo mark
    return result
  let next ← copy
  let inner ← Run.newBarrier
  let (signal, acc) ←
    if ← fits next then proceed next inner acc
    else pure (.more, acc)
  Run.undoTo mark
  return (signal.beyond inner, acc)

theorem callProcedure_eq_turn (fuel : Nat) (solver : Solver) (procedure : Procedure) (args : List Term) (depth : Nat)
    (k : Continuation σ) :
    callProcedure fuel solver procedure args depth k =
      turn (Run.copyClause procedure.base >>= fun copy => Run.unifyAll fuel copy.1 args)
        (Run.copyClause procedure.recursive) (fun copy => Run.unifyAll fuel copy.1 args)
        (fun copy inner => solver σ copy.2 (depth + 1) inner k) depth k := by
  funext acc
  simp only [callProcedure, turn, bind_assoc]

theorem iterate_succ_eq_turn (solver : Solver) (plan : LoopPlan) (k : Continuation σ) (fuel : Nat) (args : List Term)
    (depth : Nat) :
    iterate solver plan k (fuel + 1) args depth =
      turn (Run.copyTemplate plan.terminal >>= fun terminal => Run.unifyAll fuel terminal args) (copyStep plan.step)
        (fun copy => Run.unifyAll fuel copy.1 args)
        (fun copy inner => solver σ copy.2.1 (depth + 1) inner
          (iterate solver plan k fuel copy.2.2 (depth + 1))) depth k := by
  funext acc
  simp only [iterate, turn, bind_assoc]

end HornLoops
