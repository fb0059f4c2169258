import HornLoops.Proofs.Machine.Queries

/-!
# Predicates that were defined

When a text is consulted, goals without loops are kept in the clauses, and a loop that shares nothing is replaced by a
goal that stands for it. So the clauses of a program are known from the text as far as a search depends on them. A call
of a predicate whose only clause is such a loop makes the rounds of the loop.
-/

namespace HornLoops

open Machine Bindings

/-! ## Clauses -/

/-- Goals whose preparation is understood: those without loops, and loops that share nothing and can be compiled. -/
inductive Preparable : Term → Prop
  | loopless {goal : Term} (loopless : Loopless goal) : Preparable goal
  | loop {specs body : Term} {spec : LoopSpec} (parsed : LoopSpec.ofTerm specs = .ok spec) (closed : spec.Closed body)
      (accepted : ∀ next, ∃ threads between, spec.threads next = .ok threads between) :
      Preparable (.binary "do" specs body)

/-- What goals become when they are prepared, with new variables from a number on. -/
inductive Renders (procedures : Procedures) (count : Nat) : Term → Term → Prop
  | loopless {goal : Term} (loopless : Loopless goal) : Renders procedures count goal goal
  | loop {specs body goal : Term} {spec : LoopSpec} {threads : Threads} {next between : Nat}
      (parsed : LoopSpec.ofTerm specs = .ok spec) (room : count ≤ next)
      (accepted : spec.threads next = .ok threads between) (stands : StandsFor procedures spec body threads goal) :
      Renders procedures count (.binary "do" specs body) goal

namespace Renders

variable {procedures : Procedures} {count : Nat} {goal goal' : Term}

theorem evolved {after : Procedures} (evolved : procedures.Evolved after) (renders : Renders procedures count goal goal') :
    Renders after count goal goal' := by
  cases renders with
  | loopless loopless => exact .loopless loopless
  | loop parsed room accepted stands => exact .loop parsed room accepted (stands.evolved evolved)

/-- A loop that can be parsed is not a goal without loops. -/
theorem not_loopless {specs body : Term} {spec : LoopSpec} (parsed : LoopSpec.ofTerm specs = .ok spec) :
    ¬ Loopless (.binary "do" specs body) := by
  intro loopless
  have unbound : specs.isVar = true := loopless.2 rfl
  rw [LoopSpec.isVar_eq_false_of_ofTerm parsed] at unbound
  contradiction

theorem eq_of_loopless (renders : Renders procedures count goal goal') (loopless : Loopless goal) : goal' = goal := by
  cases renders with
  | loopless => rfl
  | loop parsed => exact absurd loopless (not_loopless parsed)

theorem exists_standsFor {specs body : Term} {spec : LoopSpec} (parsed : LoopSpec.ofTerm specs = .ok spec)
    (renders : Renders procedures count (.binary "do" specs body) goal') :
    ∃ next threads between, count ≤ next ∧ spec.threads next = .ok threads between ∧
      StandsFor procedures spec body threads goal' := by
  cases renders with
  | loopless loopless => exact absurd loopless (not_loopless parsed)
  | loop parsed' room accepted stands =>
    rw [parsed] at parsed'
    obtain rfl := Except.ok.inj parsed'
    exact ⟨_, _, _, room, accepted, stands⟩

end Renders

variable {count : Nat} {text name : String} {machine : Machine} {read : ReadTerm} {known : List (Nat × Term)}
  {args : List Term} {outcomes : List (List (Nat × Term))} {fault : Option RunError}

theorem Preparable.exists_prepareWith {goal : Term} (preparable : Preparable goal) {start : Procedures}
    (machine : Machine) (evolved : start.Evolved machine.procedures) (below : goal.Below count)
    (room : count ≤ machine.bindings.size) (outside : VarSet) :
    ∃ goal' findings size procedures, prepareWith outside goal machine = .ok (goal', findings) { machine with
        bindings := machine.bindings.reserve size
        procedures := procedures } ∧
      machine.procedures.Evolved procedures ∧ Renders procedures count goal goal' := by
  cases preparable with
  | loopless loopless =>
    refine ⟨goal, [], machine.bindings.size, machine.procedures, ?_, evolved.refl, .loopless loopless⟩
    rw [reserve_size]
    exact prepareWith_loopless machine loopless outside
  | loop parsed closed accepted =>
    obtain ⟨threads, between, accepted⟩ := accepted machine.bindings.size
    obtain ⟨goal', findings, size, procedures, prepared, _, grown, stands⟩ :=
      closed.exists_prepareWith parsed machine evolved accepted (below.mono room) outside
    exact ⟨goal', findings, size, procedures, prepared, grown, .loop parsed room accepted stands⟩

/-- Clauses whose preparation is understood. -/
structure Consultable (clause : Term) : Prop where
  /-- The clause is no directive. -/
  notDirective : clause.unary? ":-" = none
  /-- The head can be called. -/
  callable : (Program.headAndBody clause).1.nameArity? ≠ none
  /-- The body can be prepared. -/
  body : Preparable (Program.headAndBody clause).2

/-- A clause of a program that was made from what was read. -/
def Clause.Renders (procedures : Procedures) (count : Nat) (term : Term) (clause : Clause) : Prop :=
  ∃ goal, HornLoops.Renders procedures count (Program.headAndBody term).2 goal ∧
    clause = .ofTerms (Program.headAndBody term).1 goal

section

variable {start : Procedures} {count : Nat}

/-- Such a clause is prepared by preparing its body. -/
theorem Consultable.exists_prepareClause {clause : Term} (consultable : Consultable clause) (machine : Machine)
    (evolved : start.Evolved machine.procedures) (below : clause.Below count) (room : count ≤ machine.bindings.size) :
    ∃ clause' findings size procedures goal, prepareClause clause machine = .ok (clause', findings) { machine with
        bindings := machine.bindings.reserve size
        procedures := procedures } ∧
      machine.procedures.Evolved procedures ∧ clause'.unary? ":-" = none ∧
      Program.headAndBody clause' = ((Program.headAndBody clause).1, goal) ∧
      Renders procedures count (Program.headAndBody clause).2 goal := by
  rcases Term.clause_cases clause with ⟨head, body, rfl⟩ | ⟨goal, rfl⟩ | ⟨notRule, notDirective⟩
  · have inside : body.Below count := fun id occurs => below id (by simp [Term.binary, occurs])
    obtain ⟨goal, findings, size, procedures, prepared, grown, renders⟩ :=
      consultable.body.exists_prepareWith machine evolved inside room head.vars
    refine ⟨.binary ":-" head goal, findings, size, procedures, goal, ?_, grown, rfl, rfl, renders⟩
    rw [prepareClause_rule]
    exact bind_of_ok prepared
  · have directive := consultable.notDirective
    simp [Term.unary, Term.unary?] at directive
  · have parts : Program.headAndBody clause = (clause, .truth) := by rw [Program.headAndBody, notRule]; rfl
    refine ⟨clause, [], machine.bindings.size, machine.procedures, .truth, ?_, evolved.refl, notDirective, ?_, ?_⟩
    · rw [reserve_size]
      exact prepareClause_fact notRule notDirective machine
    · rw [parts]
    · rw [parts]
      exact .loopless (loopless_leaf trivial)

/-- A clause is added at the end of the program. -/
theorem addClause_eq {clause head body : Term} (parts : Program.headAndBody clause = (head, body))
    (callable : head.nameArity? ≠ none) (machine : Machine) :
    addClause clause machine = .ok () { machine with program := ⟨machine.program.clauses ++ [.ofTerms head body]⟩ } := by
  rw [addClause, Run.get_bind]
  simp only [Program.add, parts]
  cases head with
  | var id => exact absurd rfl callable
  | int value => exact absurd rfl callable
  | atom name => rfl
  | compound name first rest => rfl

/-- Clauses are dealt with one after the other. -/
theorem exists_consultClauses (fuel : Nat) {reads : List ReadTerm} (consultable : ∀ read ∈ reads, Consultable read.term)
    (below : ∀ read ∈ reads, read.term.Below count) (machine : Machine) (evolved : start.Evolved machine.procedures)
    (room : count ≤ machine.bindings.size) :
    ∃ later clauses, consultClauses fuel reads machine = .ok reads.length later ∧ later.settings = machine.settings ∧
      later.program.clauses = machine.program.clauses ++ clauses ∧ machine.procedures.Evolved later.procedures ∧
      List.Forall₂ (Clause.Renders later.procedures count) (reads.map ReadTerm.term) clauses := by
  induction reads generalizing machine with
  | nil => exact ⟨machine, [], rfl, rfl, (List.append_nil _).symm, evolved.refl, .nil⟩
  | cons read reads ih =>
    obtain ⟨consultableFirst, consultableRest⟩ := List.forall_mem_cons.mp consultable
    obtain ⟨belowFirst, belowRest⟩ := List.forall_mem_cons.mp below
    obtain ⟨clause, findings, size, procedures, goal, prepared, grown, notDirective, parts, renders⟩ :=
      consultableFirst.exists_prepareClause machine evolved belowFirst room
    let between : Machine := { machine with
      bindings := machine.bindings.reserve size
      procedures := procedures
      warnings := machine.warnings ++ findings.map (LoopWarning.ofDiagnostic read.names)
      program := ⟨machine.program.clauses ++ [.ofTerms (Program.headAndBody read.term).1 goal]⟩ }
    have larger : count ≤ between.bindings.size := Nat.le_trans room (Grown.reserve machine.bindings size).1
    obtain ⟨later, clauses, consulted, settings, program, grown', rendered⟩ :=
      ih consultableRest belowRest between (evolved.trans grown) larger
    refine ⟨later, .ofTerms (Program.headAndBody read.term).1 goal :: clauses, ?_, settings, ?_, grown.trans grown', ?_⟩
    · unfold consultClauses
      rw [bind_of_ok prepared]
      dsimp only
      rw [Run.report_bind]
      simp only [notDirective]
      rw [bind_of_ok (addClause_eq parts consultableFirst.callable _), bind_of_ok consulted]
      rfl
    · rw [program, List.append_assoc]
      rfl
    · exact .cons ⟨goal, renders.evolved grown', rfl⟩ rendered

/-- A machine at rest consults a text with such clauses, and is at rest again. -/
theorem exists_consult (fuel : Nat) {text : String} {clauses : List Term} (read : clausesOf text = clauses)
    (some : clauses ≠ []) (consultable : ∀ clause ∈ clauses, Consultable clause) {machine : Machine}
    (idle : machine.bindings = .empty) (evolved : start.Evolved machine.procedures) :
    ∃ count added later made, (∀ clause ∈ clauses, clause.Below count) ∧ consult fuel text machine = .ok added later ∧
      later.settings = machine.settings ∧ later.bindings = .empty ∧
      later.program.clauses = machine.program.clauses ++ made ∧ machine.procedures.Evolved later.procedures ∧
      List.Forall₂ (Clause.Renders later.procedures count) clauses made := by
  rw [clausesOf] at read
  cases ended : readProgram text 0 with
  | error error count =>
    rw [ended] at read
    exact absurd read.symm some
  | ok reads count =>
    rw [ended] at read
    subst read
    have below := readProgram_below ended
    have size : machine.bindings.size = 0 := by rw [idle]; rfl
    obtain ⟨later, made, consulted, settings, program, grown, rendered⟩ := exists_consultClauses fuel
      (fun read member => consultable _ (List.mem_map_of_mem member)) (fun read member => (below read member).1)
      { machine with bindings := machine.bindings.reserve count } evolved (by simp)
    refine ⟨count, reads.length, { later with bindings := .empty }, made, ?_, ?_, settings, rfl, program, grown, rendered⟩
    · intro clause member
      obtain ⟨read, inside, rfl⟩ := List.mem_map.mp member
      exact (below read inside).1
    · have begins : (Run.supplied .reading (readProgram text) >>= consultClauses fuel) machine = .ok reads.length later := by
        rw [Run.supplied_bind_ok (size ▸ ended), consulted]
      simp only [consult, Run.restoring, begins, idle, undoTo_mark_empty]

end

/-- Whether a clause is one for a predicate. -/
def isClauseFor (name : String) (arity : Nat) (clause : Term) : Bool :=
  (Program.headAndBody clause).1.nameArity? = some (name, arity)

/-- The clauses for a predicate are made from what was read for it. -/
theorem Clause.Renders.clausesFor {procedures : Procedures} {terms : List Term} {program : Program}
    (renders : List.Forall₂ (Clause.Renders procedures count) terms program.clauses) (name : String) (arity : Nat) :
    List.Forall₂ (Clause.Renders procedures count) (terms.filter (isClauseFor name arity))
      (program.clausesFor name arity) := by
  unfold Program.clausesFor
  generalize program.clauses = clauses at renders ⊢
  induction renders with
  | nil => exact .nil
  | @cons term clause _ _ first _ ih =>
    obtain ⟨goal, rendered, rfl⟩ := first
    have same : (Clause.ofTerms (Program.headAndBody term).1 goal).head.nameArity? =
        (Program.headAndBody term).1.nameArity? := Term.nameArity?_rename _ _
    by_cases own : (Program.headAndBody term).1.nameArity? = some (name, arity)
    · rw [List.filter_cons_of_pos (by simpa [isClauseFor] using own), List.filter_cons_of_pos (by simpa [same] using own)]
      exact .cons ⟨goal, rendered, rfl⟩ ih
    · rw [List.filter_cons_of_neg (by simpa [isClauseFor] using own), List.filter_cons_of_neg (by simpa [same] using own)]
      exact ih

/-! ## Calls -/

/-- What a query hands to a predicate: its arguments have their values, and what is known is known. -/
def Passed (known : List (Nat × Term)) (args : List Term) (outer : Nat → Term) (values : List Term) : Prop :=
  Known known outer ∧ values = args.map (Term.subst outer)

/-- A query for a call has the answers that the call presents. -/
theorem Asks.responds_call (asks : Asks text read count known (.build name args))
    (loopless : Loopless (.build name args)) (other : Term.build name args ≠ .truth)
    (idle : machine.bindings = .empty) (determined : ∀ known' ∈ outcomes, Determines known')
    (presents : ∀ after : Bindings, after.Relates count args (Passed known args) →
      ∃ final, Steady final ∧
        PresentsFrom (Given machine.settings machine.program machine.procedures) final final
          (solving (List Answer) (.build name args) 0) after
          (outcomes.map fun known' after => after.Tells count (Known known')) fault) :
    machine.Responds text (fault.elim (.ok (outcomes.map (valuedAnswer (shownNames read)))) .error) := by
  refine asks.responds idle determined fun outside => ?_
  have below : ∀ term ∈ args, term.Below count := Term.below_build.mp asks.below
  refine ⟨.build name args, [], count, machine.procedures, ?_, other, fun after scope => presents after ?_⟩
  · have settled : (Bindings.empty.reserve count).reserve count = Bindings.empty.reserve count := by
      rw [reserve_reserve, Nat.max_self]
    rw [prepareWith_loopless _ loopless outside, settled]
  · have same : args.map (Term.rename id) = args :=
      List.map_id'' (fun term => Term.rename_eq_self fun _ _ => rfl) args
    have values {outer value : Nat → Term} (asked : Asked count known outer value) :
        args.map (Term.subst value) = args.map (Term.subst outer) :=
      List.map_congr_left fun term member => asked.subst_eq (below term member)
    rw [← same]
    refine scope.relates ?_ ?_ ?_
    · intro term member id occurs
      simpa using below term member id occurs
    · intro outer value asked
      refine ⟨asked.known asks.known_below, ?_⟩
      rw [same, values asked]
    · rintro outer _ ⟨holds, rfl⟩
      rw [same]
      exact ⟨outer, ⟨fun _ _ => rfl, holds⟩, rfl⟩

/-! ## Predicates that are loops -/

/-- A predicate has a single clause, whose body is a loop that shares nothing. -/
structure Machine.Defines (machine : Machine) (name : String) (params : List Nat) (spec : LoopSpec) (body : Term)
    (next : Nat) (threads : Threads) : Prop where
  /-- The parameters are different. -/
  distinct : params.Nodup
  /-- The variables of the clause are older than those of the threads. -/
  inside : ∀ id ∈ params ++ (spec.occurrences ++ body.occurrences), id < next
  /-- The loop shares nothing. -/
  closed : spec.Closed body
  /-- The loop has threads. -/
  accepted : ∃ between, spec.threads next = .ok threads between
  /-- The body of the clause stands for the loop. -/
  clauses : ∃ goal, machine.program.clausesFor name params.length = [.ofTerms (.build name (params.map .var)) goal] ∧
    StandsFor machine.procedures spec body threads goal

/-- The variables of a clause are copied to different variables. -/
theorem injectiveOn_copyNumber (names : VarSet) (next : Nat) : InjectiveOn (copyNumber names next) names := by
  intro id member other _ same
  exact (List.idxOf_inj member).mp (Nat.add_left_cancel same)

/-- A query for a predicate that is a loop has the answers that the rounds of the loop present, in whichever way these are
made. -/
theorem Asks.responds_defined (asks : Asks text read count known (.build name args))
    (loopless : Loopless (.build name args)) (asked : Goal.ofCall name args = .predicate name args)
    (idle : machine.bindings = .empty) (sound : machine.procedures.Sound)
    (free : ∀ number arity, machine.program.clausesFor (Procedures.nameOf number) arity = []) {params : List Nat}
    {spec : LoopSpec} {body : Term} {next : Nat} {threads : Threads}
    (defined : machine.Defines name params spec body next threads) (fits : params.length = args.length)
    (deep : machine.Admits 0) (determined : ∀ known' ∈ outcomes, Determines known')
    (presents : ∀ (way : LoopWay) (procedures : Procedures) (number : Nat → Nat) (names : List Nat) (begun : Bindings),
      way.Ready (Given machine.settings machine.program procedures) threads body →
      (begun.Scope count names number fun outer value => Passed known args outer (params.map value)) →
      (∀ term ∈ threads.prelude ++ threads.initial, ∀ id ∈ term.occurrences, id ∈ names) →
      ∃ between, Runs (Given machine.settings machine.program procedures) (List Answer) 1
          (threads.prelude.map (Term.rename number)) begun between ∧
        way.Presents (Given machine.settings machine.program procedures) (List Answer) threads body
          (threads.initial.map (Term.rename number)) 1 between
          (outcomes.map fun known' after => after.Tells count (Known known')) fault) :
    machine.Responds text (fault.elim (.ok (outcomes.map (valuedAnswer (shownNames read)))) .error) := by
  have steady := steady_given machine.settings machine.program machine.procedures
  have other : Term.build name args ≠ .truth := by
    intro same
    have truth := Goal.ofTerm_build name args
    rw [same, asked] at truth
    cases truth
  obtain ⟨goal, clauses, stands⟩ := defined.clauses
  obtain ⟨between, accepted⟩ := defined.accepted
  refine asks.responds_call loopless other idle determined fun after relates => ?_
  let head := Term.build name (params.map .var)
  let names := Term.varsAll [head, goal]
  have params_eq (value : Nat → Term) : head.args.map (Term.subst value) = params.map value := by
    rw [Term.args_build, List.map_map]
    exact List.map_congr_left fun _ _ => Term.subst_var ..
  -- The parameters take the values of the arguments.
  obtain ⟨outer, holds, _⟩ := asks.determines.exists_known Term.var
  obtain ⟨value, valued⟩ : ∃ value : Nat → Term, params.map value = args.map (Term.subst outer) := by
    refine ⟨fun id => ((args.map (Term.subst outer))[params.idxOf id]?).getD .nil, List.ext_getElem (by simp [fits]) ?_⟩
    intro position inside _
    have small : position < args.length := by simpa [fits] using inside
    simp [defined.distinct.idxOf_getElem, small]
  have possible : Passed known args outer (head.args.map (Term.subst value)) := by
    rw [params_eq]
    exact ⟨holds, valued⟩
  obtain ⟨begun, scope, entered, _⟩ := relates.enterClause steady head goal (List Answer) 0 possible
  have early (outer value value' : Nat → Term) (same : ∀ id < next, value id = value' id)
      (passed : Passed known args outer (head.args.map (Term.subst value))) :
      Passed known args outer (head.args.map (Term.subst value')) := by
    rw [params_eq] at passed ⊢
    rwa [← List.map_congr_left fun id member => same id (defined.inside id (List.mem_append_left _ member))]
  have inside : ∀ id ∈ goal.occurrences, id ∈ names := fun id occurs =>
    Term.mem_varsAll.mpr ⟨goal, by simp, occurs⟩
  obtain ⟨way, procedures, number, names', begun', ready, scope', start, reached⟩ := stands.exists_way defined.closed accepted
    (fun id member => defined.inside id (List.mem_append_right _ member)) sound free scope early inside
    (injectiveOn_copyNumber names after.size)
  simp only [params_eq] at scope'
  obtain ⟨between, runs, rounds⟩ := presents way procedures number names' begun' ready scope' start
  have steady' := steady_given machine.settings machine.program procedures
  have whole := entered _ _ _ _ steady' (reached (List Answer) 1 between _ fault runs rounds)
  refine ⟨_, steady', Presents.calling steady asked (fun machine' given => ?_) (fun machine' given => ?_) whole⟩
  · rw [given.program, ← fits, clauses]
  · intro limit bounded
    exact deep limit (given.settings ▸ bounded)

end HornLoops
