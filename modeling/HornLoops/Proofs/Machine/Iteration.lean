import HornLoops.Proofs.Machine.Approximation

/-!
# Plans and procedures do the same

Carrying out a loop from its plan and calling its procedure take the same steps in the same states: the clause of
the procedure and the step of the plan have the same copies, and solving the goals of an iteration followed by the call
is solving the goals of the iteration and then making the call. Only the fuel is spent differently, so each
search with some fuel is approximated by the other one with enough of it.
-/

namespace HornLoops

open Machine

variable {invariant : Machine → Prop} {σ : Type}

/-! ## Conjunctions -/

/-- Goals that are not variables are asked for as they stand. -/
theorem solve_succ {goal : Term} (known : goal.isVar = false) (fuel depth barrier : Nat)
    (k : Continuation σ) (acc : σ) :
    solve (fuel + 1) σ goal depth barrier k acc =
      match Goal.ofTerm goal with
      | .ok asked => achieve fuel (solve fuel) asked depth barrier k acc
      | .error error => Run.fail error := by
  funext machine
  have walked : Run.walk goal machine = .ok goal machine := by
    have known' : machine.bindings.walk goal = goal := Bindings.walk_of_isVar_eq_false known
    simp [Run.walk, Bind.bind, EStateM.bind, get, getThe, MonadStateOf.get, EStateM.get, Pure.pure, EStateM.pure,
      known']
  rw [solve]
  cases asked : Goal.ofTerm goal with
  | ok found => simp only [Bind.bind, EStateM.bind, walked, asked]
  | error error => simp only [Bind.bind, EStateM.bind, walked, asked]

theorem solve_truth (fuel depth barrier : Nat) (k : Continuation σ) :
    solve (fuel + 1) σ .truth depth barrier k = k := by
  funext acc
  rw [solve_succ rfl]
  rfl

/-- A choice is made by its condition. -/
theorem solve_choice (condition consequence alternative : Term) (fuel depth barrier : Nat) (k : Continuation σ) (acc : σ) :
    solve (fuel + 1) σ (.binary ";" (.binary "->" condition consequence) alternative) depth barrier k acc =
      solveIf (solve fuel) condition consequence (some alternative) depth barrier k acc := by
  funext machine
  rw [solve_succ rfl]
  show (Run.walk (.binary "->" condition consequence) >>= _) machine = _
  rw [Run.walk_bind, Bindings.walk_of_isVar_eq_false rfl]
  rfl

theorem solve_both (left right : Term) (fuel depth barrier : Nat) (k : Continuation σ) :
    solve (fuel + 1) σ (.both left right) depth barrier k =
      solve fuel σ left depth barrier (solve fuel σ right depth barrier k) := by
  funext acc
  rw [solve_succ rfl]
  rfl

section

variable (lasting : Lasting invariant) {k : Continuation σ} (keeps : ContinuationLe invariant k k)
include lasting keeps

/-- The last goal of a conjunction is solved after all others. -/
theorem solve_joinGoals_le (goals : List Term) (last : Term) (fuel depth barrier : Nat) :
    ContinuationLe invariant (solve fuel σ (.joinGoals (goals ++ [last])) depth barrier k)
      (solve fuel σ (.joinGoals goals) depth barrier (solve fuel σ last depth barrier k)) := by
  induction goals generalizing fuel with
  | nil =>
    cases fuel with
    | zero => exact fun _ => .exhausted _
    | succ fuel =>
      rw [Term.joinGoals, solve_truth]
      exact solverLe_solve lasting (Nat.le_refl _) last depth barrier keeps
  | cons goal goals ih =>
    cases fuel with
    | zero => exact fun _ => .exhausted _
    | succ fuel =>
      have more := solverLe_solve lasting (Nat.le_succ fuel) last depth barrier keeps
      rw [Term.joinGoals_append, solve_both]
      cases goals with
      | nil => exact solverLe_solve lasting (Nat.le_succ fuel) goal depth barrier more
      | cons next goals =>
        have joined : Term.joinGoals (goal :: next :: goals) = .both goal (.joinGoals (next :: goals)) := rfl
        rw [joined, solve_both]
        refine solverLe_solve lasting (Nat.le_refl _) goal depth barrier fun acc => ?_
        exact (ih fuel acc).trans (solverLe_solve lasting (Nat.le_refl _) _ depth barrier more acc)

/-- Solving goals and then another one is solving their conjunction, with enough fuel. -/
theorem joinGoals_le_solve (goals : List Term) (last : Term) {first second : Nat} (most : Nat) {fuel : Nat}
    (few : first ≤ most) (few' : second ≤ most) (enough : most + goals.length ≤ fuel)
    (depth barrier : Nat) :
    ContinuationLe invariant
      (solve first σ (.joinGoals goals) depth barrier (solve second σ last depth barrier k))
      (solve fuel σ (.joinGoals (goals ++ [last])) depth barrier k) := by
  induction goals generalizing first fuel with
  | nil =>
    cases first with
    | zero => exact fun _ => .exhausted _
    | succ first =>
      rw [Term.joinGoals, solve_truth]
      exact solverLe_solve lasting (by simp at enough; omega) last depth barrier keeps
  | cons goal goals ih =>
    obtain ⟨fuel, rfl⟩ : ∃ rest, fuel = rest + 1 := ⟨fuel - 1, by simp at enough; omega⟩
    simp only [List.length_cons] at enough
    rw [Term.joinGoals_append, solve_both]
    cases goals with
    | nil =>
      exact solverLe_solve lasting (by omega) goal depth barrier (solverLe_solve lasting (by omega) last depth barrier keeps)
    | cons next goals =>
      have joined : Term.joinGoals (goal :: next :: goals) = .both goal (.joinGoals (next :: goals)) := rfl
      cases first with
      | zero => exact fun _ => .exhausted _
      | succ first =>
        rw [joined, solve_both]
        exact solverLe_solve lasting (by omega) goal depth barrier (ih (by omega) (by omega))

end

/-! ## Copies of one iteration -/

namespace Threads

/-- How many variables an iteration has. -/
def stepWidth (threads : Threads) (body : Term) : Nat :=
  (Term.varsAll (threads.head ++ .conjunction (threads.steps ++ [body]) :: threads.call)).length

/-- A copy of an iteration with variables from a number on: the arguments that start it, its goals, and the arguments
for the next one. -/
def stepCopy (threads : Threads) (body : Term) (next : Nat) : List Term × List Term × List Term :=
  let names := Term.varsAll (threads.head ++ .conjunction (threads.steps ++ [body]) :: threads.call)
  let copy (term : Term) : Term := (term.rename names.idxOf).rename (next + ·)
  (threads.head.map copy, (threads.steps ++ [body]).map copy, threads.call.map copy)

/-- The clause that ends a loop and the plan have the same copies of the arguments that end it. -/
theorem copyClause_base (threads : Threads) (name : String) (body : Term) :
    Run.copyClause (threads.procedure name body).base = do
      let terminal ← Run.copyTemplate (threads.plan body).terminal
      return (terminal, .truth) := by
  have vars : Term.varsAll [.build name threads.terminal, .truth] = Term.varsAll threads.terminal := by
    simp [Term.varsAll, Term.truth]
  simp only [Run.copyClause, Run.copyTemplate, procedure, plan, Clause.ofTerms, Clause.instantiate,
    Template.ofTerms, Template.instantiate, vars, Term.rename_build, Term.args_build, Term.rename_truth]
  rfl

/-- The step of a plan is copied like this. -/
theorem copyStep_plan (threads : Threads) (body : Term) :
    copyStep (threads.plan body).step = do
      let next ← Run.take (threads.stepWidth body)
      let (params, goals, call) := threads.stepCopy body next
      return (params, .conjunction goals, call) := by
  simp only [copyStep, plan, LoopStep.ofTerms, stepCopy, stepWidth, List.map_map, Function.comp_def,
    Term.rename_conjunction, List.map_append, List.map_cons, List.map_nil]

/-- The clause for one more iteration is copied like the step of the plan, with a call at the end. -/
theorem copyClause_recursive (threads : Threads) (name : String) (body : Term) :
    Run.copyClause (threads.procedure name body).recursive = do
      let next ← Run.take (threads.stepWidth body)
      let (params, goals, call) := threads.stepCopy body next
      return (params, .conjunction (goals ++ [.build name call])) := by
  have vars : Term.varsAll [.build name threads.head,
        .conjunction (threads.steps ++ [body, .build name threads.call])] =
      Term.varsAll (threads.head ++ .conjunction (threads.steps ++ [body]) :: threads.call) := by
    simp [Term.varsAll, Term.occurrences_conjunction]
  simp only [Run.copyClause, procedure, Clause.ofTerms, Clause.instantiate, vars, stepCopy, stepWidth,
    List.map_map, Function.comp_def, Term.rename_conjunction, Term.rename_build, Term.args_build,
    List.map_append, List.map_cons, List.map_nil, List.append_assoc, List.cons_append, List.nil_append]

end Threads

/-! ## Calls of procedures -/

/-- A procedure can be called: it is found under its name, and the program has no clauses in its place. -/
def Machine.Installed (machine : Machine) (procedure : Procedure) : Prop :=
  machine.program.clausesFor procedure.name procedure.arity = [] ∧
    machine.procedures.named? procedure.name = some procedure

/-- A procedure can be called as long as the program stays and procedures are only added. -/
theorem Machine.Installed.mono {machine after : Machine} {procedure : Procedure}
    (installed : machine.Installed procedure) (program : after.program = machine.program)
    (added : machine.procedures.entries <+: after.procedures.entries) : after.Installed procedure := by
  obtain ⟨free, found⟩ := installed
  refine ⟨by rwa [program], ?_⟩
  have names : machine.procedures.toList <+: after.procedures.toList := added.map _
  exact names.find?_eq_some found

theorem Machine.lasting_installed (procedure : Procedure) :
    Lasting fun machine => machine.Installed procedure :=
  fun _ _ _ program added installed => installed.mono program added

/-- Where a procedure can be called, calling its name calls it. -/
theorem callPredicate_eq {machine : Machine} {procedure : Procedure} (installed : machine.Installed procedure)
    {args : List Term} (fits : args.length = procedure.arity) (fuel : Nat) (solver : Solver)
    (depth : Nat) (k : Continuation σ) (acc : σ) :
    callPredicate fuel solver procedure.name args depth k acc machine =
      callProcedure fuel solver procedure args depth k acc machine := by
  obtain ⟨free, found⟩ := installed
  rw [callPredicate_of_named (fits ▸ free) found, if_pos fits.symm]

/-! ## One iteration -/

/-- What a call of a procedure and an iteration from a plan have in common: the loop ends if the arguments end it, and
otherwise a copy of the iteration is made and handed on. -/
def iteration (fuel : Nat) (threads : Threads) (body : Term) (args : List Term) (depth : Nat)
    (k : Continuation σ) (proceed : List Term → List Term → Nat → Continuation σ) : Continuation σ :=
  fun acc => do
    Run.checkDepth depth
    let mark ← Run.mark
    let terminal ← Run.copyTemplate (threads.plan body).terminal
    if ← Run.unifyAll fuel terminal args then
      let result ← k acc
      Run.undoTo mark
      return result
    let next ← Run.take (threads.stepWidth body)
    let (params, goals, call) := threads.stepCopy body next
    let inner ← Run.newBarrier
    let (signal, acc) ←
      if ← Run.unifyAll fuel params args then proceed goals call inner acc
      else pure (.more, acc)
    Run.undoTo mark
    return (signal.beyond inner, acc)

theorem callProcedure_eq_iteration (fuel : Nat) (solver : Solver) (threads : Threads) (name : String)
    (body : Term) (args : List Term) (depth : Nat) (k : Continuation σ) :
    callProcedure fuel solver (threads.procedure name body) args depth k =
      iteration fuel threads body args depth k fun goals call inner =>
        solver σ (.conjunction (goals ++ [.build name call])) (depth + 1) inner k := by
  funext acc
  simp only [callProcedure, iteration, threads.copyClause_base, threads.copyClause_recursive, bind_assoc,
    pure_bind]

theorem iterate_succ_eq_iteration (fuel : Nat) (solver : Solver) (threads : Threads) (body : Term)
    (args : List Term) (depth : Nat) (k : Continuation σ) :
    iterate solver (threads.plan body) k (fuel + 1) args depth =
      iteration fuel threads body args depth k fun goals call inner =>
        solver σ (.conjunction goals) (depth + 1) inner
          (iterate solver (threads.plan body) k fuel call (depth + 1)) := by
  funext acc
  simp only [iterate, iteration, threads.copyStep_plan, bind_assoc, pure_bind]

theorem iteration_eq_turn (fuel : Nat) (threads : Threads) (body : Term) (args : List Term) (depth : Nat)
    (k : Continuation σ) (proceed : List Term → List Term → Nat → Continuation σ) :
    iteration fuel threads body args depth k proceed =
      turn (Run.copyTemplate (threads.plan body).terminal >>= fun terminal => Run.unifyAll fuel terminal args)
        (do return threads.stepCopy body (← Run.take (threads.stepWidth body)))
        (fun copy => Run.unifyAll fuel copy.1 args) (fun copy inner => proceed copy.2.1 copy.2.2 inner) depth k := by
  funext acc
  simp only [iteration, turn, bind_assoc, pure_bind]

/-- One iteration is approximated if what it hands on to is. -/
theorem iteration_le (lasting : Lasting invariant) {k k' : Continuation σ}
    (continuations : ContinuationLe invariant k k') {small large : Nat} (le : small ≤ large)
    (threads : Threads) (body : Term) (args : List Term) (depth : Nat)
    {proceed proceed' : List Term → List Term → Nat → Continuation σ}
    (proceeds : ∀ goals call inner, goals.length = threads.steps.length + 1 →
      call.length = threads.call.length →
      ContinuationLe invariant (proceed goals call inner) (proceed' goals call inner)) :
    ContinuationLe invariant (iteration small threads body args depth k proceed)
      (iteration large threads body args depth k' proceed') := by
  intro acc
  have fuels : (Approximates.footing lasting).Fuels small large := .inr ⟨rfl, le⟩
  have everywhere (terms : List Term) : (Approximates.footing lasting).region.CoversAll terms :=
    fun term _ => Region.covers_everywhere term
  have copying : Indifferent (Approximates.footing lasting)
      (fun copy => copy.2.1.length = threads.steps.length + 1 ∧ copy.2.2.length = threads.call.length)
      (do return threads.stepCopy body (← Run.take (threads.stepWidth body))) :=
    (Indifferent.take _).andThen fun _ _ => .pure ⟨rfl, by simp [Threads.stepCopy]⟩
  rw [iteration_eq_turn, iteration_eq_turn]
  refine .of_inStep lasting
    (InStep.turn (Approximates.continuesInStep lasting continuations) rfl ?_ copying ?_ ?_ depth)
  · exact (Indifferent.copyTemplate _).andThen fun _ covers => Indifferent.unifyAll fuels covers (everywhere args)
  · exact fun copy _ => Indifferent.unifyAll fuels (everywhere _) (everywhere args)
  · intro copy inner lengths
    have begins := Approximates.continuesInStep lasting (proceeds copy.2.1 copy.2.2 inner lengths.1 lengths.2)
    exact (begins.inStep rfl).imp fun _ _ => OutcomesAgree.outward

/-! ## Iterations and calls -/

section

/-- The call at the end of an iteration calls the procedure. -/
theorem solve_call {machine : Machine} {threads : Threads} {body : Term} {number : Nat}
    (installed : machine.Installed (threads.procedure (Procedures.nameOf number) body))
    {args : List Term} (fits : args.length = threads.arity) (fuel depth barrier : Nat)
    (k : Continuation σ) (acc : σ) :
    solve (fuel + 1) σ (.build (Procedures.nameOf number) args) depth barrier k acc machine =
      callProcedure fuel (solve fuel) (threads.procedure (Procedures.nameOf number) body) args depth k acc
        machine := by
  rw [solve_succ (Term.isVar_build _ args), Goal.ofTerm_build, Goal.ofCall_nameOf]
  exact callPredicate_eq installed fits fuel (solve fuel) depth k acc

theorem build_nameOf_ne_truth (number : Nat) (args : List Term) :
    Term.build (Procedures.nameOf number) args ≠ .truth := by
  have other : Procedures.nameOf number ≠ "true" := Procedures.nameOf_ne (by decide) number
  cases args <;> simp [Term.build, Term.truth, other]

variable (lasting : Lasting invariant) {k : Continuation σ} (keeps : ContinuationLe invariant k k)
  {threads : Threads} {body : Term} {number : Nat}
  (installed : ∀ machine, invariant machine →
    machine.Installed (threads.procedure (Procedures.nameOf number) body))
  (fits : threads.call.length = threads.arity)
include lasting keeps installed fits

/-- A call of a procedure is approximated by the iterations of its plan. -/
theorem callProcedure_le_iterate {fuel most : Nat} (few : fuel ≤ most) (args : List Term) (depth : Nat) :
    ContinuationLe invariant
      (callProcedure fuel (solve fuel) (threads.procedure (Procedures.nameOf number) body) args depth k)
      (iterate (solve most) (threads.plan body) k (fuel + 1) args depth) := by
  induction fuel generalizing args depth with
  | zero =>
    rw [callProcedure_eq_iteration, iterate_succ_eq_iteration]
    exact iteration_le lasting keeps (Nat.le_refl _) threads body args depth
      fun _ _ _ _ _ _ => .exhausted _
  | succ fuel ih =>
    rw [callProcedure_eq_iteration, iterate_succ_eq_iteration]
    refine iteration_le lasting keeps (Nat.le_refl _) threads body args depth ?_
    intro goals call inner _ length acc
    rw [Term.conjunction_append goals (build_nameOf_ne_truth number call)]
    refine (solve_joinGoals_le lasting keeps _ _ (fuel + 1) (depth + 1) inner acc).trans ?_
    refine solverLe_solve lasting few _ (depth + 1) inner ?_ acc
    exact fun acc => .congr_left
      (fun machine holds => solve_call (installed machine holds) (length.trans fits) fuel _ _ k acc)
      (ih (by omega) call (depth + 1) acc)

/-- The iterations of a plan are approximated by a call of its procedure with enough fuel. -/
theorem exists_iterate_le_callProcedure (rounds fuel : Nat) :
    ∃ enough, ∀ args depth, ContinuationLe invariant
      (iterate (solve fuel) (threads.plan body) k rounds args depth)
      (callProcedure enough (solve enough) (threads.procedure (Procedures.nameOf number) body) args depth
        k) := by
  induction rounds with
  | zero => exact ⟨0, fun _ _ _ => .exhausted _⟩
  | succ rounds ih =>
    obtain ⟨enough, later⟩ := ih
    let most := max fuel (enough + 1)
    refine ⟨max rounds (most + (threads.steps.length + 1)), fun args depth => ?_⟩
    rw [callProcedure_eq_iteration, iterate_succ_eq_iteration]
    refine iteration_le lasting keeps (by omega) threads body args depth ?_
    intro goals call inner many length acc
    have short := List.length_filter_le (fun goal => goal ≠ Term.truth) goals
    rw [Term.conjunction_append goals (build_nameOf_ne_truth number call)]
    refine Approximates.trans ?_ (joinGoals_le_solve lasting keeps _ _ most
      (Nat.le_max_left fuel (enough + 1)) (Nat.le_max_right _ _) (by omega) (depth + 1) inner acc)
    refine solverLe_solve lasting (Nat.le_refl _) _ (depth + 1) inner ?_ acc
    exact fun acc => .congr_right
      (fun machine holds => solve_call (installed machine holds) (length.trans fits) enough _ _ k acc)
      (later call (depth + 1) acc)

/-- Solving the goal of a loop is approximated by carrying out its plan. -/
theorem solve_goal_le_interpret (fuel depth barrier : Nat) :
    ContinuationLe invariant
      (solve fuel σ (threads.initialGoal (Procedures.nameOf number)) depth barrier k)
      (interpret fuel (solve fuel) (threads.plan body) depth barrier k) := by
  intro acc
  rw [Threads.initialGoal, Term.conjunction_append _ (build_nameOf_ne_truth number _)]
  refine (solve_joinGoals_le lasting keeps _ _ fuel depth barrier acc).trans ?_
  refine solverLe_solve lasting (Nat.le_refl _) _ depth barrier ?_ acc
  cases fuel with
  | zero => exact fun _ => .exhausted _
  | succ fuel =>
    exact fun acc => .congr_left
      (fun machine holds => solve_call (installed machine holds) rfl fuel _ _ k acc)
      (callProcedure_le_iterate lasting keeps installed fits (Nat.le_succ fuel) _ depth acc)

/-- Carrying out the plan of a loop is approximated by solving its goal with enough fuel. -/
theorem exists_interpret_le_solve_goal (fuel depth barrier : Nat) :
    ∃ enough, ContinuationLe invariant (interpret fuel (solve fuel) (threads.plan body) depth barrier k)
      (solve enough σ (threads.initialGoal (Procedures.nameOf number)) depth barrier k) := by
  obtain ⟨enough, calls⟩ :=
    exists_iterate_le_callProcedure lasting keeps installed fits fuel fuel
  let most := max fuel (enough + 1)
  refine ⟨most + threads.prelude.length, fun acc => ?_⟩
  have short := List.length_filter_le (fun goal => goal ≠ Term.truth) threads.prelude
  rw [Threads.initialGoal, Term.conjunction_append _ (build_nameOf_ne_truth number _)]
  refine Approximates.trans ?_ (joinGoals_le_solve lasting keeps _ _ most
    (Nat.le_max_left fuel (enough + 1)) (Nat.le_max_right _ _) (by omega) depth barrier acc)
  refine solverLe_solve lasting (Nat.le_refl _) _ depth barrier ?_ acc
  exact fun acc => .congr_right
    (fun machine holds => solve_call (installed machine holds) rfl enough _ _ k acc)
    (calls _ depth acc)

end

/-- A continuation that leaves the program as it is and takes no procedures away. -/
def Continuation.Additive (k : Continuation σ) : Prop :=
  ∀ acc machine result after, k acc machine = .ok result after →
    after.program = machine.program ∧ machine.procedures.entries <+: after.procedures.entries

/-- Such a continuation keeps procedures that can be called. -/
theorem Continuation.Additive.keeps {k : Continuation σ} (additive : k.Additive) (procedure : Procedure) :
    ContinuationLe (fun machine => machine.Installed procedure) k k := by
  intro acc machine installed
  match ended : k acc machine with
  | .ok result after =>
    obtain ⟨program, added⟩ := additive acc machine result after ended
    exact ⟨rfl, installed.mono program added⟩
  | .error (.error error) after => rfl
  | .error .exhausted after => trivial

/-- Running a loop through its procedure and carrying it out from its plan come to the same results. The loop is
compiled with a store that compiling built, nothing in its body is replaced, its procedure is still registered, and the
program has no clauses in the place of the procedure. Then for every continuation, which sees the whole machine each
time it is called, the two searches end in the same way: with the same signal and the same collected value or with the
same error, and in the same state, bindings and output included. -/
theorem solve_goal_iff_interpret (before : Compilation) {after expanded : Compilation}
    (reachable : before.procedures.Reachable) (specs body : Term) (shared : Option VarSet)
    (below : ∀ id ∈ specs.occurrences ++ body.occurrences ++ shared.getD [], id < before.next)
    {loop : CompiledLoop} (compiled : Compiler.compileLoop specs body shared before = .ok loop after)
    {parsed : LoopSpec} (read : LoopSpec.ofTerm specs = .ok parsed) {threads : Threads} {between : Nat}
    (threaded : ((shared.map parsed.withParams).getD parsed).threads before.next = .ok threads between)
    (outside : VarSet) {findings : List Diagnostic}
    (unchanged : Compiler.expandGoal body outside before = .ok (body, findings) expanded)
    {machine : Machine} (registered : after.procedures.entries <+: machine.procedures.entries)
    (free : machine.program.clausesFor loop.name loop.arity = [])
    (k : Continuation σ) (additive : k.Additive) (acc : σ) (depth barrier : Nat)
    (result : EStateM.Result Stop Machine (Outcome σ)) (finished : Finished result) :
    (∃ fuel, solve fuel σ loop.goal depth barrier k acc machine = result) ↔
      ∃ fuel, interpret fuel (solve fuel) (threads.plan body) depth barrier k acc machine = result := by
  have sound := reachable.sound
  have belowBody : body.Below before.next := fun id occurs => below id (by simp [occurs])
  have loopless : Loopless body := by
    have expands := Compiler.reaches_expandGoal before sound belowBody outside
    unfold Compiler.Reaches at expands
    rw [unchanged] at expands
    obtain ⟨_, soundExpanded, _, expansion⟩ := expands
    refine expansion.loopless_of_eq (fun entry member => ?_) rfl
    obtain ⟨number, _, named⟩ := soundExpanded.named entry member
    exact ⟨number, named⟩
  obtain ⟨_, number, runs⟩ := Compiler.exists_runs before sound below compiled read threaded loopless
  have installed : machine.Installed (threads.procedure (Procedures.nameOf number) body) := by
    have here : Machine.Installed { machine with procedures := after.procedures }
        (threads.procedure (Procedures.nameOf number) body) := by
      refine ⟨?_, runs.found⟩
      rwa [runs.name, runs.arity] at free
    exact here.mono rfl registered
  have fits : threads.call.length = threads.arity :=
    (LoopSpec.aligned_threads _ _ _ _ threaded).2.2
  have lasting := Machine.lasting_installed (threads.procedure (Procedures.nameOf number) body)
  have keeps := additive.keeps (threads.procedure (Procedures.nameOf number) body)
  rw [runs.goal]
  constructor
  · rintro ⟨fuel, ended⟩
    exact ⟨fuel, (solve_goal_le_interpret lasting keeps (fun _ => id) fits fuel depth barrier acc).eq_of_finished
      installed ended finished⟩
  · rintro ⟨fuel, ended⟩
    obtain ⟨enough, approximates⟩ :=
      exists_interpret_le_solve_goal lasting keeps (fun _ => id) fits fuel depth barrier
    exact ⟨enough, (approximates acc).eq_of_finished installed ended finished⟩

/-- The loop `foreach(V0, V1) do V2 = V0`, whose body shares a variable with its surroundings, comes to the same
results in both ways, here for the continuation that counts solutions. -/
theorem solve_goal_iff_interpret_foreach :
    ∃ loop after threads between,
      Compiler.compileLoop (.build "foreach" [.var 0, .var 1]) (.binary "=" (.var 2) (.var 0)) (some [2])
        ⟨3, {}⟩ = .ok loop after ∧
      ((LoopSpec.ofIterators [.forEach (.var 0) (.var 1)]).withParams [2]).threads 3 =
        .ok threads between ∧
      ∀ result : EStateM.Result Stop Machine (Outcome Nat), Finished result →
        ((∃ fuel, solve fuel Nat loop.goal 0 0 (fun count => return (.more, count + 1)) 0
            { procedures := after.procedures } = result) ↔
          ∃ fuel, interpret fuel (solve fuel) (threads.plan (.binary "=" (.var 2) (.var 0))) 0 0
            (fun count => return (.more, count + 1)) 0 { procedures := after.procedures } = result) := by
  refine ⟨_, _, _, _, rfl, rfl, fun result finished => ?_⟩
  refine solve_goal_iff_interpret ⟨3, {}⟩ .empty (.build "foreach" [.var 0, .var 1])
    (.binary "=" (.var 2) (.var 0)) (some [2]) (by decide) rfl rfl rfl [] rfl (List.prefix_refl _) rfl _ ?_
    0 0 0 result finished
  rintro count machine _ _ ⟨rfl, rfl⟩
  exact ⟨rfl, List.prefix_refl _⟩

end HornLoops
