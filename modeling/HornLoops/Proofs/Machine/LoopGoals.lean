import HornLoops.Proofs.Machine.Consulting
import HornLoops.Proofs.Machine.Rounds

/-!
# Goals that stand for loops

A loop in a clause or in a query becomes a call of its procedure if loops are compiled as soon as they are read.
Otherwise it is kept, and it is compiled or carried out from its plan whenever it is reached. For a loop that shares no
variables with its surroundings all of this comes to the same: the goals of the prelude are solved, and then the rounds
of one and the same threads are made.
-/

namespace HornLoops

open Machine Bindings

/-! ## Loops that share nothing -/

/-- A loop without parameters whose body is not looked into and has variables of the iterations only. -/
structure LoopSpec.Closed (spec : LoopSpec) (body : Term) : Prop where
  /-- There are no parameters. -/
  plain : ∀ iterator ∈ spec.iterators, iterator.isParam = false
  /-- The variables of the body are local. -/
  own : ∀ id ∈ body.occurrences, id ∈ spec.localVars
  /-- The body has no loops. -/
  leaf : IsLeaf body

variable {spec : LoopSpec} {goals : List Term} {before after : Procedures} {body goal : Term} {threads : Threads}

/-- A loop without parameters is the one with no parameters. -/
theorem LoopSpec.withParams_nil (plain : ∀ iterator ∈ spec.iterators, iterator.isParam = false) :
    spec.withParams [] = spec := by
  have others : (spec.iterators.filter fun iterator => !iterator.isParam) = spec.iterators := by
    rw [List.filter_eq_self]
    intro iterator member
    simp [plain iterator member]
  rw [withParams, others]
  rfl

theorem LoopSpec.declared_eq_nil (plain : ∀ iterator ∈ spec.iterators, iterator.isParam = false) :
    spec.declared = [] := by
  have none : spec.iterators.flatMap LoopIterator.declared = [] := by
    rw [List.flatMap_eq_nil_iff]
    intro iterator member
    cases iterator with
    | param vars => exact absurd (plain _ member) (by simp [LoopIterator.isParam])
    | _ => rfl
  rw [declared, none]
  rfl

theorem Term.mapGoalVars_joinGoals {replace : Nat → Term} (kept : ∀ goal ∈ goals, goal.mapGoalVars replace = goal) :
    (joinGoals goals).mapGoalVars replace = joinGoals goals := by
  induction goals with
  | nil => rfl
  | cons goal goals ih =>
    have first := kept goal List.mem_cons_self
    have rest := ih fun other member => kept other (List.mem_cons_of_mem _ member)
    cases goals with
    | nil => exact first
    | cons next others =>
      show mapGoalVars replace (.compound "," goal [joinGoals (next :: others)]) = _
      rw [mapGoalVars, if_pos rfl, first, rest]
      rfl

/-- Iterators are read as they are written, whatever is bound. -/
theorem Bindings.conjunction_toTerm (bindings : Bindings) (spec : LoopSpec) :
    bindings.conjunction spec.toTerm = spec.toTerm := by
  have kept (replace : Nat → Term) (iterator : LoopIterator) :
      iterator.toTerm.mapGoalVars replace = iterator.toTerm := by
    cases iterator with
    | forEachArg element structured index => cases index <;> rfl
    | param vars =>
      rcases vars with _ | ⟨first, _ | ⟨second, _ | ⟨third, rest⟩⟩⟩ <;> rfl
    | _ => rfl
  rw [conjunction]
  cases bindings.size with
  | zero => rfl
  | succ levels =>
    apply Term.mapGoalVars_joinGoals
    intro goal member
    obtain ⟨iterator, _, rfl⟩ := List.mem_map.mp (List.mem_of_mem_filter member)
    exact kept _ iterator

namespace LoopSpec.Closed

variable {spec : LoopSpec} {body : Term} (closed : spec.Closed body)
include closed

theorem shared_eq_nil (outside : VarSet) : spec.shared body outside = [] := by
  have used : (body.vars.filter fun id => id ∉ spec.localVars && (id ∈ outside || id ∈ spec.globalVars)) = [] := by
    rw [List.filter_eq_nil_iff]
    intro id member
    simp [closed.own id (Term.mem_vars.mp member)]
  rw [shared, used, declared_eq_nil closed.plain]
  rfl

theorem rename {number : Nat → Nat} (injective : InjectiveOn number spec.occurrences) :
    (spec.rename number).Closed (body.rename number) where
  plain iterator member := by
    rw [iterators_rename] at member
    obtain ⟨original, inside, rfl⟩ := List.mem_map.mp member
    rw [← closed.plain original inside]
    cases original <;> rfl
  own := by
    rw [localVars_rename injective]
    exact Term.forall_mem_rename fun id occurs => List.mem_map_of_mem (closed.own id occurs)
  leaf := closed.leaf.rename number

/-- No parameters are added to such a loop when it is reached. -/
theorem threaded_eq (bindings : Bindings) : threaded bindings spec.toTerm body = .ok spec.toTerm := by
  rw [threaded, bindings.conjunction_toTerm, ofTerm_toTerm]
  change Except.ok (spec.withParams (spec.declared.extend (spec.shared body _))).toTerm = _
  rw [closed.shared_eq_nil, declared_eq_nil closed.plain]
  exact congrArg (fun settled : LoopSpec => Except.ok settled.toTerm) (withParams_nil closed.plain)

end LoopSpec.Closed

/-! ## Preparing -/

/-- A goal that stands for a loop: a call of its procedure, or the loop itself. -/
inductive StandsFor (procedures : Procedures) (spec : LoopSpec) (body : Term) (threads : Threads) : Term → Prop
  | call (number : Nat)
      (found : procedures.named? (Procedures.nameOf number) =
        some (threads.procedure (Procedures.nameOf number) body)) :
      StandsFor procedures spec body threads (threads.initialGoal (Procedures.nameOf number))
  | loop : StandsFor procedures spec body threads (.binary "do" spec.toTerm body)

theorem Procedures.Evolved.named? (evolved : before.Evolved after) {name : String} {procedure : Procedure}
    (found : before.named? name = some procedure) : after.named? name = some procedure := by
  obtain ⟨entry, member, same⟩ := List.mem_map.mp (List.mem_of_find?_eq_some found)
  have named : procedure.name = name := by simpa using List.find?_some found
  have there := evolved.sound.named?_eq (evolved.grown.subset member)
  rwa [same, named] at there

/-- Procedures that are added do no harm. -/
theorem StandsFor.evolved (evolved : before.Evolved after) (stands : StandsFor before spec body threads goal) :
    StandsFor after spec body threads goal := by
  cases stands with
  | call number found => exact .call number (evolved.named? found)
  | loop => exact .loop

theorem StandsFor.ne_truth {procedures : Procedures} (stands : StandsFor procedures spec body threads goal) :
    goal ≠ .truth := by
  cases stands with
  | call number found =>
    have last := build_nameOf_ne_truth number threads.initial
    rw [Threads.initialGoal, Term.conjunction_append _ last]
    cases threads.prelude.filter fun goal => goal ≠ .truth with
    | nil => exact last
    | cons goal goals => cases goals <;> simp [Term.joinGoals, Term.both, Term.binary, Term.truth]
  | loop => simp [Term.binary, Term.truth]

namespace LoopSpec.Closed

variable {spec : LoopSpec} {body specs : Term} (closed : spec.Closed body) (parsed : LoopSpec.ofTerm specs = .ok spec)
include closed parsed

/-- Such a loop is compiled as it is, whatever is around it. -/
theorem exists_expandGoal (before : Compilation) (sound : before.procedures.Sound) {threads : Threads} {between : Nat}
    (accepted : spec.threads before.next = .ok threads between)
    (below : (Term.binary "do" specs body).Below before.next) (outside : VarSet) :
    ∃ number findings after, between ≤ after.next ∧
      Compiler.expandGoal (.binary "do" specs body) outside before =
        .ok (threads.initialGoal (Procedures.nameOf number), findings) after ∧
      after.procedures.named? (Procedures.nameOf number) =
        some (threads.procedure (Procedures.nameOf number) body) := by
  have settled : ((some [] : Option VarSet).map spec.withParams).getD spec = spec := withParams_nil closed.plain
  have threaded := accepted
  rw [← settled] at threaded
  obtain ⟨loop, after, compiled⟩ := Compiler.exists_compileLoop before closed.leaf parsed threaded
  have known : ∀ id ∈ specs.occurrences ++ body.occurrences ++ (some [] : Option VarSet).getD [], id < before.next :=
    fun id occurs => below id (by simpa [Term.binary] using occurs)
  obtain ⟨later, number, runs⟩ :=
    Compiler.exists_runs before sound known compiled parsed threaded (loopless_leaf closed.leaf)
  refine ⟨number, loop.diagnostics, after, later, ?_, runs.found⟩
  rw [Compiler.expandGoal_loop (isVar_eq_false_of_ofTerm parsed) outside parsed, closed.shared_eq_nil, ← runs.goal]
  rw [Compiler.compileLoop] at compiled
  simp only [Bind.bind, EStateM.bind, compiled]
  rfl

/-- Such a loop is settled as it is. -/
theorem settleGoal_eq (outside : VarSet) :
    settleGoal (.binary "do" specs body) outside = .ok (.binary "do" spec.toTerm body, []) := by
  rw [settleGoal, treatGoal_loop _ (isVar_eq_false_of_ofTerm parsed), settleLoop, parsed]
  simp only [Bind.bind, Except.bind, treatGoal_leaf settleLoop closed.leaf, closed.shared_eq_nil,
    withParams_nil closed.plain, declared_eq_nil closed.plain]
  rfl

/-- What is prepared for such a loop stands for it. -/
theorem exists_prepareWith {start : Procedures} (machine : Machine) (evolved : start.Evolved machine.procedures)
    {threads : Threads} {between : Nat} (accepted : spec.threads machine.bindings.size = .ok threads between)
    (below : (Term.binary "do" specs body).Below machine.bindings.size) (outside : VarSet) :
    ∃ goal findings size procedures, prepareWith outside (.binary "do" specs body) machine = .ok (goal, findings) { machine with
        bindings := machine.bindings.reserve size
        procedures := procedures } ∧
      goal.Below (machine.bindings.reserve size).size ∧ machine.procedures.Evolved procedures ∧
      StandsFor procedures spec body threads goal := by
  have belowSpec : ∀ id ∈ spec.occurrences, id < machine.bindings.size := fun id occurs =>
    below id (by simp [Term.binary, mem_occurrences_of_ofTerm parsed occurs])
  cases ahead : machine.settings.expandsAhead with
  | true =>
    obtain ⟨number, findings, after, later, expanded, found⟩ := closed.exists_expandGoal parsed
      ⟨machine.bindings.size, machine.procedures⟩ evolved.sound accepted below outside
    have grown := evolved.expandGoal machine.bindings.size below outside
    rw [Compiler.storeAfter_ok expanded] at grown
    refine ⟨_, findings, after.next, after.procedures, ?_, ?_, grown, .call number found⟩
    · simp [prepareWith, Run.get_bind, ahead, Run.compiling, expanded]
    · intro id occurs
      rw [size_reserve]
      rcases mem_occurrences_of_threads accepted (Threads.mem_occurrences_of_initialGoal occurs) with old | ⟨_, new⟩
      · exact Nat.lt_of_lt_of_le (belowSpec id old) (Nat.le_max_left _ _)
      · exact Nat.lt_of_lt_of_le (by omega) (Nat.le_max_right _ _)
  | false =>
    refine ⟨_, [], machine.bindings.size, machine.procedures, ?_, ?_, evolved.refl, .loop⟩
    · simp [prepareWith, Run.get_bind, ahead, closed.settleGoal_eq parsed]
      rfl
    · intro id occurs
      rw [reserve_size]
      simp only [Term.occurrences_binary, List.mem_append, occurrences_toTerm] at occurs
      rcases occurs with own | inner
      · exact belowSpec id own
      · exact below id (by simp [Term.binary, inner])

end LoopSpec.Closed

/-- Goals without loops before the last one are left alone. What is around the last goal then does not matter here. -/
theorem exists_treatGoal_joinGoals (loopless : ∀ goal ∈ goals, Loopless goal) (last : Term) (outside : VarSet) :
    ∃ outside', ∀ {m : Type → Type} [Monad m] [LawfulMonad m] (treat : LoopTreatment m),
      treatGoal treat (.joinGoals (goals ++ [last])) outside =
        treatGoal treat last outside' >>= fun treated => pure (.joinGoals (goals ++ [treated.1]), treated.2) := by
  induction goals generalizing outside with
  | nil =>
    refine ⟨outside, fun treat => ?_⟩
    show _ = treatGoal treat last outside >>= pure
    rw [bind_pure]
    rfl
  | cons goal goals ih =>
    obtain ⟨outside', walks⟩ := ih (fun other member => loopless other (List.mem_cons_of_mem _ member))
      (outside.extend goal.occurrences)
    refine ⟨outside', fun treat => ?_⟩
    have comma : isJunction "," = true := rfl
    simp only [Term.joinGoals_append, Term.both, treatGoal_junction treat comma, walks,
      treatGoal_loopless treat (loopless goal List.mem_cons_self), pure_bind, bind_assoc, List.nil_append]

/-- So a query is prepared by preparing its last goal. -/
theorem exists_prepareGoal_joinGoals (loopless : ∀ goal ∈ goals, Loopless goal) (last : Term) :
    ∃ outside, ∀ machine treated prepared, prepareWith outside last machine = .ok treated prepared →
      prepareGoal (.joinGoals (goals ++ [last])) machine = .ok (.joinGoals (goals ++ [treated.1]), treated.2) prepared := by
  obtain ⟨outside, walks⟩ := exists_treatGoal_joinGoals loopless last []
  refine ⟨outside, fun machine treated prepared prepares => ?_⟩
  rw [prepareWith, Run.get_bind] at prepares
  rw [prepareGoal, Run.get_bind]
  cases ahead : machine.settings.expandsAhead with
  | true =>
    rw [ahead, if_pos rfl] at prepares
    rw [if_pos rfl, Compiler.expandGoal, walks, Run.compiling_map]
    exact bind_of_ok prepares
  | false =>
    rw [ahead, if_neg Bool.false_ne_true] at prepares
    rw [if_neg Bool.false_ne_true, settleGoal, walks]
    cases settled : settleGoal last outside with
    | error error =>
      rw [settled] at prepares
      contradiction
    | ok treated' =>
      rw [settled] at prepares
      rw [settleGoal] at settled
      obtain ⟨rfl, rfl⟩ := prepares
      rw [settled]
      rfl

/-! ## Reaching -/

/-- A machine with given settings, program and procedures. -/
structure Machine.Given (settings : Settings) (program : Program) (procedures : Procedures) (machine : Machine) :
    Prop where
  /-- The settings. -/
  settings : machine.settings = settings
  /-- The program. -/
  program : machine.program = program
  /-- The procedures. -/
  procedures : machine.procedures = procedures

theorem Machine.steady_given (settings : Settings) (program : Program) (procedures : Procedures) :
    Steady (Given settings program procedures) := by
  intro machine after settled kept stored given
  exact ⟨settled.trans given.settings, kept.trans given.program, stored.trans given.procedures⟩

/-- Variables that are taken get numbers of their own. -/
theorem injectiveOn_shift {number : Nat → Nat} {names : List Nat} {next size : Nat} (injective : InjectiveOn number names)
    (inside : ∀ id ∈ names, number id < size) {ids : List Nat} (known : ∀ id ∈ ids, id < next → id ∈ names) :
    InjectiveOn (shift number next size) ids := by
  intro one member other member' same
  by_cases old : one < next <;> by_cases old' : other < next
  · rw [shift_of_lt old, shift_of_lt old'] at same
    exact injective one (known one member old) other (known other member' old') same
  · have := inside one (known one member old)
    rw [shift_of_lt old, shift_of_le (by omega)] at same
    omega
  · have := inside other (known other member' old')
    rw [shift_of_lt old', shift_of_le (by omega)] at same
    omega
  · rw [shift_of_le (by omega), shift_of_le (by omega)] at same
    omega

/-- A loop is looked at when it is reached. -/
theorem solve_loop {σ : Type} (specs body : Term) (fuel depth barrier : Nat) (k : Continuation σ) (acc : σ)
    (machine : Machine) :
    solve (fuel + 1) σ (.binary "do" specs body) depth barrier k acc machine =
      solveLoop fuel (solve fuel) specs body depth barrier k acc machine := by
  rw [solve_succ rfl]
  rfl

namespace LoopSpec.Closed

variable {spec : LoopSpec} {body : Term} (closed : spec.Closed body) {settings : Settings} {program : Program}
  {procedures : Procedures} {bindings : Bindings} {threads : Threads} {between : Nat}
  (accepted : spec.threads bindings.size = .ok threads between)
include closed accepted

/-- A loop that is compiled when it is reached. -/
theorem exists_compiled (mode : settings.mode = .compiled) (sound : procedures.Sound)
    (below : ∀ id ∈ spec.occurrences ++ body.occurrences, id < bindings.size) (program : Program) :
    ∃ number size procedures', between ≤ size ∧
      Procedures.named? procedures' (Procedures.nameOf number) =
        some (threads.procedure (Procedures.nameOf number) body) ∧
      ∀ σ depth solutions fault,
        Presents (Given settings program procedures') (solving σ (threads.initialGoal (Procedures.nameOf number)) depth)
          (bindings.reserve size) solutions fault →
        PresentsFrom (Given settings program procedures) (Given settings program procedures')
          (Given settings program procedures') (solving σ (.binary "do" spec.toTerm body) depth) bindings solutions
          fault := by
  let before : Compilation := ⟨bindings.size, procedures⟩
  have parsed := ofTerm_toTerm spec
  obtain ⟨loop, after, compiled⟩ : ∃ loop after, Compiler.compileLoop spec.toTerm body none before = .ok loop after :=
    Compiler.exists_compileLoop before closed.leaf parsed accepted
  have known : ∀ id ∈ spec.toTerm.occurrences ++ body.occurrences ++ (none : Option VarSet).getD [], id < before.next := by
    intro id occurs
    rw [Option.getD_none, List.append_nil, occurrences_toTerm] at occurs
    exact below id occurs
  obtain ⟨later, number, runs⟩ :=
    Compiler.exists_runs before sound known compiled parsed accepted (loopless_leaf closed.leaf)
  refine ⟨number, after.next, after.procedures, later, runs.found, fun σ depth solutions fault presents => ?_⟩
  rw [← runs.goal] at presents
  obtain ⟨enough, presents⟩ := presents
  refine ⟨enough + 1, fun fuel more barrier machine given here k notes takes acc => ?_⟩
  obtain ⟨fuel, rfl⟩ : ∃ rest, fuel = rest + 1 := ⟨fuel - 1, by omega⟩
  let compiledMachine : Machine := { machine with
    bindings := machine.bindings.reserve after.next
    procedures := after.procedures
    warnings := machine.warnings ++ loop.diagnostics.map (LoopWarning.ofDiagnostic []) }
  have compiling : Run.compiling (Compiler.compileLoop spec.toTerm body none) machine = .ok loop { machine with
      bindings := machine.bindings.reserve after.next
      procedures := after.procedures } := by
    have begins : Compiler.compileLoop spec.toTerm body none ⟨machine.bindings.size, machine.procedures⟩ =
        .ok loop after := by
      rw [here, given.procedures]
      exact compiled
    simp only [Run.compiling, begins]
  have reached : solving σ (.binary "do" spec.toTerm body) depth (fuel + 1) barrier k acc machine =
      solve fuel σ loop.goal depth barrier k acc compiledMachine := by
    rw [solving, solve_loop, solveLoop, Run.get_bind]
    simp only [closed.threaded_eq, given.settings, mode]
    rw [bind_of_ok compiling, Run.report_bind]
  have ends := presents fuel (by omega) barrier compiledMachine ⟨given.settings, given.program, rfl⟩ (by rw [← here]) k
    notes takes acc
  rw [reached]
  exact ends.of_reserve

/-- A loop that is carried out from its plan when it is reached. -/
theorem presents_interpreted (mode : settings.mode = .interpreted) {σ : Type} {depth : Nat}
    {solutions : List (Bindings → Prop)} {fault : Option RunError}
    (presents : Presents (σ := σ) (Given settings program procedures)
      (fun fuel barrier => interpret fuel (solve fuel) (threads.plan body) depth barrier) (bindings.reserve between)
      solutions fault) :
    Presents (Given settings program procedures) (solving σ (.binary "do" spec.toTerm body) depth) bindings solutions
      fault := by
  obtain ⟨enough, presents⟩ := presents
  refine ⟨enough + 1, fun fuel more barrier machine given here k notes takes acc => ?_⟩
  obtain ⟨fuel, rfl⟩ : ∃ rest, fuel = rest + 1 := ⟨fuel - 1, by omega⟩
  let plannedMachine : Machine := { machine with bindings := machine.bindings.reserve between }
  have planned := planLoop_eq_ok (ofTerm_toTerm spec) accepted body
  have reached : solving σ (.binary "do" spec.toTerm body) depth (fuel + 1) barrier k acc machine =
      interpret fuel (solve fuel) (threads.plan body) depth barrier k acc plannedMachine := by
    rw [solving, solve_loop, solveLoop, Run.get_bind]
    simp only [closed.threaded_eq, given.settings, mode]
    rw [Run.supplied_bind_ok (here ▸ planned)]
  have ends := presents fuel (by omega) barrier plannedMachine ⟨given.settings, given.program, given.procedures⟩
    (by rw [← here]) k notes takes acc
  rw [reached]
  exact ends.of_reserve

end LoopSpec.Closed

section

variable {settings : Settings} {program : Program} {procedures : Procedures} {spec : LoopSpec} {body goal : Term}
  {threads : Threads} {next between : Nat} (closed : spec.Closed body)
  (accepted : spec.threads next = .ok threads between)
  (below : ∀ id ∈ spec.occurrences ++ body.occurrences, id < next) (sound : procedures.Sound)
  (free : ∀ number arity, program.clausesFor (Procedures.nameOf number) arity = []) {bindings : Bindings} {limit : Nat}
  {names : List Nat} {number : Nat → Nat} {fact : (Nat → Term) → (Nat → Term) → Prop}
  (scope : bindings.Scope limit names number fact)
  (early : ∀ outer value value', (∀ id < next, value id = value' id) → fact outer value → fact outer value')

include accepted in
/-- The variables with which a loop starts. -/
theorem LoopSpec.mem_of_prelude_initial {term : Term} (member : term ∈ threads.prelude ++ threads.initial) {id : Nat}
    (occurs : id ∈ term.occurrences) : id ∈ spec.occurrences ∨ (next ≤ id ∧ id < between) := by
  apply mem_occurrences_of_threads accepted
  rw [Threads.occurrences, Term.occurrencesAll_eq_flatMap, List.mem_flatMap]
  refine ⟨term, ?_, occurs⟩
  simp only [List.mem_append] at member ⊢
  tauto

include closed accepted below sound free scope early in
/-- However it is reached, a goal that stands for a loop solves the goals of the prelude and then makes rounds. If the loop
is compiled on the way, then the machine has further procedures from there on. -/
theorem StandsFor.exists_way (stands : StandsFor procedures spec body threads goal)
    (known : ∀ id ∈ goal.occurrences, id ∈ names) (injective : InjectiveOn number names) :
    ∃ (way : LoopWay) (procedures' : Procedures) (number' : Nat → Nat) (names' : List Nat) (begun : Bindings),
      way.Ready (Given settings program procedures') threads body ∧ begun.Scope limit names' number' fact ∧
      (∀ term ∈ threads.prelude ++ threads.initial, ∀ id ∈ term.occurrences, id ∈ names') ∧
      ∀ σ depth between solutions fault,
        Runs (Given settings program procedures') σ depth (threads.prelude.map (Term.rename number')) begun between →
        way.Presents (Given settings program procedures') σ threads body (threads.initial.map (Term.rename number')) depth
          between solutions fault →
        PresentsFrom (Given settings program procedures) (Given settings program procedures')
          (Given settings program procedures') (solving σ (goal.rename number) depth) bindings solutions fault := by
  cases stands with
  | call called found =>
    refine ⟨.procedure called, procedures, number, names, bindings, ?_, scope, ?_, ?_⟩
    · intro machine given
      refine ⟨?_, ?_⟩
      · rw [given.program]
        exact free called _
      · rw [given.procedures]
        exact found
    · intro term member id occurs
      apply known
      rw [Threads.initialGoal, Term.occurrences_conjunction]
      simp only [List.flatMap_append, List.flatMap_cons, List.flatMap_nil, List.append_nil, Term.occurrences_build,
        List.mem_append, List.mem_flatMap] at member ⊢
      exact member.imp (fun early => ⟨term, early, occurs⟩) fun late => ⟨term, late, occurs⟩
    · intro σ depth between solutions fault runs presents
      exact LoopWay.presents_initialGoal (steady_given settings program procedures) runs presents
  | loop =>
    let number' := shift number next bindings.size
    have own : ∀ id ∈ spec.occurrences ++ body.occurrences, id ∈ names := by
      intro id member
      apply known
      simpa [Term.binary, LoopSpec.occurrences_toTerm] using member
    have belowSpec : ∀ id ∈ spec.occurrences, id < next := fun id member => below id (List.mem_append_left _ member)
    have accepted' := LoopSpec.threads_shift number accepted belowSpec bindings.size
    have injectiveSpec : InjectiveOn number spec.occurrences :=
      injective.mono fun id member => own id (List.mem_append_left _ member)
    have closed' := closed.rename injectiveSpec
    have bodies : body.rename number = body.rename number' := Term.rename_congr fun id occurs =>
      (shift_of_lt (below id (List.mem_append_right _ occurs))).symm
    have injective' : InjectiveOn number' (threads.occurrences ++ body.occurrences) := by
      refine injectiveOn_shift injective scope.below fun id member old => ?_
      rcases List.mem_append.mp member with member | member
      · rcases LoopSpec.mem_occurrences_of_threads accepted member with inside | ⟨new, _⟩
        · exact own id (List.mem_append_left _ inside)
        · omega
      · exact own id (List.mem_append_right _ member)
    have knownThreads : ∀ term ∈ threads.prelude ++ threads.initial, ∀ id ∈ term.occurrences,
        id ∈ names.filter (· < next) ++ List.range' next (between - next) := by
      intro term member id occurs
      rw [List.mem_append, List.mem_filter, List.mem_range'_1]
      rcases LoopSpec.mem_of_prelude_initial accepted member occurs with inside | ⟨new, old⟩
      · exact .inl ⟨own id (List.mem_append_left _ inside), by simpa using belowSpec id inside⟩
      · exact .inr ⟨new, by omega⟩
    have copied : (Term.binary "do" spec.toTerm body).rename number =
        .binary "do" (spec.rename number).toTerm (body.rename number) := by
      simp [Term.binary, LoopSpec.toTerm_rename]
    have belowCopy : ∀ id ∈ (spec.rename number).occurrences ++ (body.rename number).occurrences, id < bindings.size := by
      rw [LoopSpec.occurrences_rename, Term.occurrences_rename, ← List.map_append]
      exact List.forall_mem_map.mpr fun id inside => scope.below id (own id inside)
    rw [copied]
    cases mode : settings.mode with
    | compiled =>
      obtain ⟨called, size, procedures', room, found, reached⟩ :=
        closed'.exists_compiled accepted' mode sound belowCopy program
      refine ⟨.procedure called, procedures', number', _, bindings.reserve size, ?_, scope.taking early _ room,
        knownThreads, ?_⟩
      · intro machine given
        refine ⟨?_, ?_⟩
        · rw [given.program]
          exact free called _
        · rw [given.procedures, ← Threads.procedure_rename injective', ← bodies]
          exact found
      · intro σ depth between solutions fault runs presents
        apply reached
        rw [Threads.initialGoal_rename]
        exact LoopWay.presents_initialGoal (steady_given settings program procedures') runs presents
    | interpreted =>
      refine ⟨.plan, procedures, number', _, bindings.reserve (bindings.size + (between - next)), trivial,
        scope.taking early _ (Nat.le_refl _), knownThreads, ?_⟩
      intro σ depth between solutions fault runs presents
      apply closed'.presents_interpreted accepted' mode
      obtain ⟨terminal, step⟩ := Threads.plan_rename injective'
      rw [← bodies] at terminal step
      exact LoopWay.presents_interpret (steady_given settings program procedures) terminal step runs presents

end

end HornLoops
