import HornLoops.Proofs.Machine.Iteration

/-!
# Cuts stay inside their barriers

A search that comes to an end asks for more, or cuts to its own barrier, or hands on what its continuation answered to
some solution. So cuts to barriers that were set up on the way never get out. Only a cut, a conjunction, a disjunction
and a conditional pass their own barrier on. Everything else gives the same signals whatever its barrier is, and hence
never cuts to it: a goal that is called, a goal whose solutions are collected, the clauses of a predicate and the body of
a loop. For loops this takes a look at the goals of the prelude, which are solved with the barrier around the loop.

A cut at the end of a goal that is called commits to the first solution of what is before it, as a conditional does.
-/

namespace HornLoops

open Machine

variable {σ : Type}

/-! ## Signals of continuations -/

/-- Keeps a record of what a continuation answers, the latest answer first. -/
def Continuation.logged (k : Continuation σ) : Continuation (σ × List Signal) := fun noted => do
  let outcome ← k noted.1
  return (outcome.1, (outcome.2, outcome.1 :: noted.2))

theorem continuesInStep_logged (k : Continuation σ) :
    ContinuesInStep Footing.plain (fun acc noted => noted.1 = acc) (fun signal _ noted => signal ∈ noted.2) Escape.never
      k k.logged := by
  refine ⟨Escape.kept_never k, ?_⟩
  rintro _ noted rfl machine _
  show Footing.plain.Ends _ _ (k noted.1 machine) (k.logged noted machine)
  simp only [Continuation.logged, Bind.bind, EStateM.bind]
  cases k noted.1 machine with
  | error stop after => exact .stop stop
  | ok outcome after =>
    exact .ok ⟨(Signal.ahead_zero _).symm, rfl, .inr (List.mem_cons_self ..)⟩ (InStep.holds_plain after)

/-- A search asks for more, cuts to its barrier, or hands on a signal of its continuation. -/
theorem exists_solve_logged {fuel : Nat} {goal : Term} {depth barrier : Nat} {k : Continuation σ} {acc acc' : σ}
    {machine after : Machine} {signal : Signal}
    (ended : solve fuel σ goal depth barrier k acc machine = .ok (signal, acc') after) :
    ∃ log, solve fuel (σ × List Signal) goal depth barrier k.logged (acc, []) machine = .ok (signal, (acc', log)) after ∧
      (signal = .more ∨ signal = .cut barrier ∨ signal ∈ log) := by
  have fuels : Footing.plain.Fuels fuel fuel := .inl rfl
  have ends := (solversInStep_solve fuels depth barrier (Region.covers_everywhere goal)
    (continuesInStep_logged k) acc (acc, []) rfl).of_plain machine
  rw [ended] at ends
  rcases ends with ⟨_, outcome, _, ⟨rfl, rfl⟩, ended', agree⟩ | ⟨_, _, ⟨⟩, _⟩ | ⟨_, _, _, met⟩
  · obtain ⟨signal', noted, log⟩ := outcome
    obtain rfl : signal' = signal := agree.signals.trans (Signal.ahead_zero _)
    obtain rfl : noted = acc' := agree.values
    exact ⟨log, ended', agree.allows⟩
  · exact (Escape.not_met_never met).elim

/-! ## Goals that cannot cut -/

/-- Goals for which the barrier does not matter. -/
def Uncut (goal : Term) : Prop :=
  ∀ (σ : Type) (fuel depth barrier barrier' : Nat) (k : Continuation σ),
    solve fuel σ goal depth barrier k = solve fuel σ goal depth barrier' k

/-- What a goal asks for that keeps cuts to itself. -/
def Goal.Sealed : Goal → Prop
  | .cut | .both _ _ | .either _ _ | .ifThen _ _ => False
  | _ => True

/-- Without loops, what keeps cuts to itself does not look at the barrier. -/
theorem achieve_of_sealed {asked : Goal} (kept : asked.Sealed) (other : ∀ specs body, asked ≠ .loop specs body)
    (fuel : Nat) (solver : Solver) (depth barrier barrier' : Nat) (k : Continuation σ) (acc : σ) :
    achieve fuel solver asked depth barrier k acc = achieve fuel solver asked depth barrier' k acc := by
  cases asked with
  | cut | both _ _ | either _ _ | ifThen _ _ => exact kept.elim
  | loop specs body => exact absurd rfl (other specs body)
  | succeed | fail | «unless» _ | call _ _ | collect _ _ _ | builtin _ | predicate _ _ => rfl

namespace Uncut

theorem build {name : String} {args : List Term} (kept : (Goal.ofCall name args).Sealed)
    (other : ∀ specs body, Goal.ofCall name args ≠ .loop specs body) : Uncut (.build name args) := by
  intro σ fuel depth barrier barrier' k
  cases fuel with
  | zero => rfl
  | succ fuel =>
    funext acc
    rw [solve_succ (Term.isVar_build name args), solve_succ (Term.isVar_build name args), Goal.ofTerm_build]
    exact achieve_of_sealed kept other fuel _ depth barrier barrier' k acc

theorem evaluate (target expression : Term) : Uncut (Goal.evaluate target expression) :=
  @build "is" [target, expression] trivial (fun _ _ => Goal.noConfusion)

theorem truth : Uncut .truth := @build "true" [] trivial (fun _ _ => Goal.noConfusion)

theorem both {left right : Term} (first : Uncut left) (second : Uncut right) : Uncut (.both left right) := by
  intro σ fuel depth barrier barrier' k
  cases fuel with
  | zero => rfl
  | succ fuel => rw [solve_both, solve_both, second σ fuel depth barrier barrier' k, first σ fuel depth barrier barrier']

theorem conjunction {goals : List Term} (each : ∀ goal ∈ goals, Uncut goal) : Uncut (.conjunction goals) :=
  Term.conjunction_induction truth (fun _ _ => both) each

/-- The condition of a conditional has a barrier of its own. -/
theorem ifThenElse (condition : Term) {consequence alternative : Term} (first : Uncut consequence)
    (second : Uncut alternative) : Uncut (.binary ";" (.binary "->" condition consequence) alternative) := by
  intro σ fuel depth barrier barrier' k
  cases fuel with
  | zero => rfl
  | succ fuel =>
    funext acc
    rw [solve_choice, solve_choice, solveIf, solveIf, first σ fuel depth barrier barrier' k]
    refine bind_congr fun inner => bind_congr fun outcome => ?_
    obtain ⟨signal, found, acc'⟩ := outcome
    cases signal with
    | more =>
      cases found with
      | true => rfl
      | false => exact congrFun (second σ fuel depth barrier barrier' k) acc'
    | halt => rfl
    | cut target => rfl

theorem openLimit (stop start max : Term) : Uncut (LoopIterator.openLimit stop start max) :=
  ifThenElse _ (@build "=" [stop, max] trivial (fun _ _ => Goal.noConfusion)) (evaluate _ _)

end Uncut

/-! ## Loops -/

open LoopIterator in
/-- The goals before a loop do not cut. -/
theorem LoopIterator.uncut_prelude (iterator : LoopIterator) :
    Yields (fun threads => ∀ goal ∈ threads.prelude, Uncut goal) iterator.threads := by
  have functor (args : List Term) (three : args.length = 3) : Uncut (.build "functor" args) := by
    obtain ⟨first, second, third, rfl⟩ := List.length_eq_three.mp three
    exact .build trivial (fun _ _ => Goal.noConfusion)
  intro next threads after threaded
  cases Draws.of_threads threaded with
  | @countFrom index first max begins =>
    cases max.constant? <;> simp [openCounter, Uncut.evaluate, Uncut.openLimit]
  | unknownArguments element id position =>
    simp [argumentThreads, functor, Uncut.evaluate]
  | _ => simp [argumentThreads, closedCounter, openCounter, threadParams, Uncut.evaluate, Uncut.openLimit]

theorem LoopSpec.uncut_prelude (spec : LoopSpec) :
    Yields (fun threads => ∀ goal ∈ threads.prelude, Uncut goal) spec.threads :=
  yields_threads (by simp)
    (fun first second goal member => (List.mem_append.mp member).elim (first goal) (second goal))
    fun iterator _ => iterator.uncut_prelude

/-- The goal of a compiled loop does not cut. -/
theorem Compiler.uncut_of_compileLoop {specs body : Term} {loop : CompiledLoop} {before after : Compilation}
    (ordered : before.procedures.Ordered) (compiled : compileLoop specs body none before = .ok loop after) :
    Uncut loop.goal := by
  obtain ⟨parsed, threads, finish, _, threaded, goal, _, entry, there, _, name⟩ := exists_goal_of_compileLoop compiled
  have maintained := kept_maintains.compileLoop specs body none before
  rw [storeAfter, compiled] at maintained
  obtain ⟨number, _, named⟩ := (maintained ordered).2.named entry (List.mem_of_getElem? there)
  have call : Uncut (.build loop.name threads.initial) := by
    rw [← name, named]
    refine .build ?_ ?_ <;> simp [Goal.ofCall_nameOf, Goal.Sealed]
  rw [goal]
  refine .conjunction (List.forall_mem_append.mpr ⟨?_, List.forall_mem_singleton.mpr call⟩)
  exact parsed.uncut_prelude before.next threads finish threaded

theorem uncut_of_planLoop {specs body : Term} {plan : LoopPlan} {next after : Nat}
    (planned : planLoop specs body next = .ok plan after) : Uncut (.conjunction plan.prelude) := by
  obtain ⟨spec, threads, _, threaded, rfl⟩ := exists_threads_of_planLoop planned
  exact .conjunction (spec.uncut_prelude next threads after threaded)

theorem solveLoop_eq {machine : Machine} (ordered : machine.procedures.Ordered) (fuel : Nat) (specs body : Term)
    (depth barrier barrier' : Nat) (k : Continuation σ) (acc : σ) :
    solveLoop fuel (solve fuel) specs body depth barrier k acc machine =
      solveLoop fuel (solve fuel) specs body depth barrier' k acc machine := by
  simp only [solveLoop, Run.get_bind]
  cases threaded machine.bindings specs body with
  | error error => rfl
  | ok specs =>
    cases machine.settings.mode with
    | compiled =>
      simp only [Bind.bind, EStateM.bind, Run.compiling]
      cases compiled : Compiler.compileLoop specs body none ⟨machine.bindings.size, machine.procedures⟩ with
      | error error after => rfl
      | ok loop after => simp only [Compiler.uncut_of_compileLoop ordered compiled σ fuel depth barrier barrier' k]
    | interpreted =>
      simp only [Bind.bind, EStateM.bind, Run.supplied]
      cases planned : planLoop specs body machine.bindings.size with
      | error error after => rfl
      | ok plan after => simp only [interpret, uncut_of_planLoop planned σ fuel depth barrier barrier']

/-! ## Searches -/

/-- A goal that keeps cuts to itself is searched for in the same way whatever its barrier is. -/
theorem solve_of_sealed {machine : Machine} (ordered : machine.procedures.Ordered) {goal : Term} {asked : Goal}
    (read : Goal.ofTerm (machine.bindings.walk goal) = .ok asked) (kept : asked.Sealed) (fuel depth barrier barrier' : Nat)
    (k : Continuation σ) (acc : σ) :
    solve fuel σ goal depth barrier k acc machine = solve fuel σ goal depth barrier' k acc machine := by
  cases fuel with
  | zero => rfl
  | succ fuel =>
    simp only [solve, Run.walk_bind, read]
    by_cases loop : ∃ specs body, asked = .loop specs body
    · obtain ⟨specs, body, rfl⟩ := loop
      exact solveLoop_eq ordered fuel specs body depth barrier barrier' k acc
    · simp only [not_exists] at loop
      rw [achieve_of_sealed kept loop fuel (solve fuel) depth barrier barrier' k acc]

/-- Cuts stay inside their barriers: a search that comes to an end asks for more, cuts to its barrier, or hands on what
its continuation answered to some solution. If the goal is a call, the collection of solutions, a predicate or a loop,
then it does not cut to its barrier either, so that no alternatives around it are given up unless the continuation asks
for it. The procedures are in order because the compiler keeps them so. -/
theorem solve_confines_cuts {fuel : Nat} {goal : Term} {depth barrier : Nat} {k : Continuation σ} {acc acc' : σ}
    {machine after : Machine} {signal : Signal}
    (ended : solve fuel σ goal depth barrier k acc machine = .ok (signal, acc') after) :
    ∃ log, solve fuel (σ × List Signal) goal depth barrier k.logged (acc, []) machine = .ok (signal, (acc', log)) after ∧
      (signal = .more ∨ signal = .cut barrier ∨ signal ∈ log) ∧
      ∀ asked, Goal.ofTerm (machine.bindings.walk goal) = .ok asked → asked.Sealed → machine.procedures.Ordered →
        signal = .more ∨ signal ∈ log := by
  obtain ⟨log, logged, signals⟩ := exists_solve_logged ended
  refine ⟨log, logged, signals, fun asked read kept ordered => ?_⟩
  -- the search cannot tell its barrier from the next one, to which it does not cut
  have same {σ : Type} := @solve_of_sealed σ machine ordered goal asked read kept fuel depth barrier (barrier + 1)
  rw [same] at ended logged
  obtain ⟨log', logged', signals'⟩ := exists_solve_logged ended
  obtain rfl : log = log' := by simpa using logged.symm.trans logged'
  rcases signals with more | rfl | answered
  · exact .inl more
  · rcases signals' with more | other | answered
    · exact .inl more
    · simp at other
    · exact .inr answered
  · exact .inr answered

/-- A goal is called that cuts after its first solution, and the continuation cuts further back. -/
theorem solve_confines_cuts_called :
    let goal : Term := .build "call" [.both (.binary ";" .truth .truth) (.atom "!")]
    let k : Continuation Nat := fun acc => pure (.cut 3, acc + 1)
    solve 5 Nat goal 0 7 k 0 { barriers := 8 } = .ok (.cut 3, 1) { barriers := 9 } ∧
      ∃ log, solve 5 (Nat × List Signal) goal 0 7 k.logged (0, []) { barriers := 8 } =
        .ok (.cut 3, (1, log)) { barriers := 9 } ∧ .cut 3 ∈ log := by
  intro goal k
  have ended : solve 5 Nat goal 0 7 k 0 { barriers := 8 } = .ok (.cut 3, 1) { barriers := 9 } := by rfl
  obtain ⟨log, logged, _, signals⟩ := solve_confines_cuts ended
  have answered := signals (.call (.both (.binary ";" .truth .truth) (.atom "!")) []) rfl trivial Procedures.ordered_empty
  exact ⟨ended, log, logged, answered.resolve_left Signal.noConfusion⟩

/-! ## Commitments -/

/-- A conditional keeps in mind besides whether its condition had a solution. -/
theorem continuesInStep_commit (k : Continuation σ) (inner : Nat) :
    ContinuesInStep Footing.plain (fun acc found => found.2 = acc) (fun _ _ _ => True) Escape.never
      (fun acc => do
        let outcome ← k acc
        return (outcome.1.orCut inner, outcome.2))
      (fun found : Bool × σ => do
        let outcome ← k found.2
        return (outcome.1.orCut inner, (true, outcome.2))) := by
  refine ⟨Escape.kept_never _, ?_⟩
  rintro _ found rfl machine _
  show Footing.plain.Ends _ _ ((k found.2 >>= fun outcome => _) machine) ((k found.2 >>= fun outcome => _) machine)
  simp only [Bind.bind, EStateM.bind]
  cases k found.2 machine with
  | error stop after => exact .stop stop
  | ok outcome after =>
    exact .ok ⟨(Signal.ahead_zero _).symm, rfl, .inr trivial⟩ (InStep.holds_plain after)

/-- A goal before a cut is searched for as a condition is. -/
theorem solve_before_cut (fuel : Nat) (goal : Term) (depth barrier inner : Nat) (k : Continuation σ) (acc : σ) :
    solve fuel σ goal depth inner (solve fuel σ (.atom "!") depth inner k) acc =
      (do
        let outcome ← solve fuel (Bool × σ) goal depth inner (fun found => do
          let outcome ← solve fuel σ .truth depth barrier k found.2
          return (outcome.1.orCut inner, (true, outcome.2))) (false, acc)
        return (outcome.1, outcome.2.2)) := by
  cases fuel with
  | zero => rfl
  | succ fuel =>
    have cut : solve (fuel + 1) σ (.atom "!") depth inner k = fun acc => do
        let outcome ← k acc
        return (outcome.1.orCut inner, outcome.2) := by
      funext acc
      rw [solve_succ rfl]
      rfl
    rw [cut, solve_truth]
    have fuels : Footing.plain.Fuels (fuel + 1) (fuel + 1) := .inl rfl
    funext machine
    have ends := (solversInStep_solve fuels depth inner (Region.covers_everywhere goal)
      (continuesInStep_commit k inner) acc (false, acc) rfl).of_plain machine
    have lead : inner + Footing.plain.lead = inner := rfl
    rw [lead] at ends
    simp only [Bind.bind, EStateM.bind] at ends ⊢
    rcases ends with ⟨outcome, ⟨signal, found, acc'⟩, after, ended, ended', agree⟩ | ⟨stop, after, ended, ended'⟩ |
      ⟨_, _, _, met⟩
    · obtain rfl : signal = outcome.1 := agree.signals.trans (Signal.ahead_zero _)
      obtain rfl : acc' = outcome.2 := agree.values
      rw [ended, ended']
      rfl
    · rw [ended, ended']
    · exact (Escape.not_met_never met).elim

/-- A goal that is called with a cut at its end is searched for as a condition is: the cut commits to the first solution of
the goal and has no effect around the call, whatever cuts there are in the goal itself. -/
theorem solve_call_cut (fuel : Nat) (goal : Term) (depth barrier : Nat) (k : Continuation σ) (acc : σ) :
    solve (fuel + 2) σ (.build "call" [.both goal (.atom "!")]) depth barrier k acc =
      solve (fuel + 1) σ (.binary "->" goal .truth) depth barrier k acc := by
  have confined : solveConfined (solve (fuel + 1)) (.both goal (.atom "!")) depth k acc =
      solveIf (solve fuel) goal .truth none depth barrier k acc := by
    refine bind_congr fun inner => ?_
    rw [solve_both, solve_before_cut fuel goal depth barrier, bind_assoc]
    refine bind_congr fun outcome => ?_
    obtain ⟨signal, found, acc'⟩ := outcome
    cases signal <;> cases found <;> rfl
  funext machine
  rw [solve_succ (Term.isVar_build _ _), Goal.ofTerm_build, solve_succ rfl]
  show (Run.walk (.both goal (.atom "!")) >>= _) machine = solveIf (solve fuel) goal .truth none depth barrier k acc machine
  rw [Run.walk_bind, Bindings.walk_of_isVar_eq_false rfl, ← confined]
  rfl

end HornLoops
