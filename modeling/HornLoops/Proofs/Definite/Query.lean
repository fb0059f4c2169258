import HornLoops.Machine.Session
import HornLoops.Proofs.Definite.Flat
import HornLoops.Proofs.Machine.Iteration
import HornLoops.Proofs.Reader.Variables

/-!
# Answers to definite queries

A machine that solves a definite goal visits the resolvents of the search one after the other, and what it hands on is
undone afterwards. Each construct adds to the answers exactly the solutions of the resolvent that it starts from,
provided its continuation does so for what is left. At the end of a search a store without circles is described by its
answer completely. So a query that comes to an end has found all instances of its goal that are true in the least model,
and no others.
-/

namespace HornLoops

/-! ## Instances under answers -/

/-- Values under which the named variables have the values of an answer. -/
def Answer.Assigns (answer : Answer) (names : List (String × Nat)) (assignment : Nat → Term) : Prop :=
  answer.values = names.map fun (name, id) => (name, assignment id)

/-- The instances without variables of a goal under an answer. -/
def Answer.groundInstances (answer : Answer) (names : List (String × Nat)) (goal : Term) : Set Term :=
  {ground | ∃ assignment, answer.Assigns names assignment ∧ ground ∈ (goal.subst assignment).groundInstances}

theorem Answer.mem_groundInstances {answer : Answer} {names : List (String × Nat)} {goal ground : Term} :
    ground ∈ answer.groundInstances names goal ↔
      ∃ assignment, answer.Assigns names assignment ∧ ground ∈ (goal.subst assignment).groundInstances := Iff.rfl

section

variable {names : List (String × Nat)} {goal : Term} (shown : ∀ id ∈ goal.occurrences, ∃ name, (name, id) ∈ names)
include shown

/-- If all variables of a goal are named, then an answer leaves no choice for the goal. -/
theorem Answer.Assigns.subst_eq {answer : Answer} {assignment assignment' : Nat → Term}
    (assigns : answer.Assigns names assignment) (assigns' : answer.Assigns names assignment') :
    goal.subst assignment = goal.subst assignment' := by
  refine Term.subst_congr fun id occurs => ?_
  obtain ⟨name, among⟩ := shown id occurs
  have same := List.map_inj_left.mp (assigns.symm.trans assigns') (name, id) among
  exact (Prod.mk.inj same).2

/-- A goal that has no variables under an answer is its only instance. -/
theorem Answer.Assigns.groundInstances_eq {answer : Answer} {assignment : Nat → Term}
    (assigns : answer.Assigns names assignment) (solid : (goal.subst assignment).isGround = true) :
    answer.groundInstances names goal = {goal.subst assignment} := by
  have fixed : ∀ replace, (goal.subst assignment).subst replace = goal.subst assignment := fun replace =>
    Term.subst_eq_self fun id occurs => absurd occurs (Term.isGround_iff.mp solid id)
  ext ground
  rw [Answer.mem_groundInstances, Set.mem_singleton_iff]
  constructor
  · rintro ⟨assignment', assigns', _, replace, rfl⟩
    rw [assigns'.subst_eq shown assigns, fixed]
  · rintro rfl
    exact ⟨assignment, assigns, solid, .var, (Term.subst_self _).symm⟩

/-- The answer for a store without circles has as its instances all solutions of the store. -/
theorem groundInstances_answerFor {bindings : Bindings} (acyclic : bindings.Acyclic) (facts : Set Term) :
    (Machine.answerFor names bindings).groundInstances names goal =
      Resolvent.solutions facts goal ⟨[], bindings⟩ := by
  have own : (Machine.answerFor names bindings).Assigns names fun id => bindings.resolve (.var id) := rfl
  ext ground
  rw [Answer.mem_groundInstances, Resolvent.mem_solutions]
  constructor
  · rintro ⟨assignment, assigns, inside⟩
    rw [assigns.subst_eq shown own, Term.mem_groundInstances] at inside
    obtain ⟨valuation, rfl⟩ := inside
    let values (id : Nat) : Term := (bindings.resolve (.var id)).subst valuation.value
    have grounded : ∀ id, (values id).isGround = true := fun id =>
      Term.isGround_subst.mpr fun other _ => valuation.ground other
    refine ⟨⟨values, grounded⟩, ?_, by simp, Term.subst_subst _ _ _⟩
    intro id value bound
    have solved := acyclic.satisfies_resolve id value bound
    simp only [values, solved, Term.subst_subst]
  · rintro ⟨valuation, satisfies, _, rfl⟩
    refine ⟨_, own, Term.mem_groundInstances.mpr ⟨valuation, ?_⟩⟩
    rw [← Bindings.resolve_eq_subst, satisfies.subst_resolve]

end

namespace Machine

variable {names : List (String × Nat)} {template : Term}

/-! ## What a search adds -/

/-- What holds of a computation if it comes to an end. -/
def Yields {α : Type} (holds : α → Machine → Prop) : EStateM.Result Stop Machine α → Prop
  | .ok value machine => holds value machine
  | .error _ _ => True

variable {goal : Term} {α : Type} {holds : α → Machine → Prop} {action : Run α} {machine : Machine}
  {predicates : Set (String × Nat)}

theorem Yields.bind {β : Type} {holds' : β → Machine → Prop} {next : α → Run β}
    (first : Yields holds (action machine))
    (rest : ∀ value later, holds value later → Yields holds' (next value later)) :
    Yields holds' ((action >>= next) machine) := by
  simp only [Bind.bind, EStateM.bind]
  cases result : action machine with
  | ok value later =>
    rw [result] at first
    exact rest value later first
  | error stop later => trivial

theorem Yields.imp {holds' : α → Machine → Prop} {result : EStateM.Result Stop Machine α}
    (yields : Yields holds result) (weaker : ∀ value machine, holds value machine → holds' value machine) :
    Yields holds' result := by
  cases result with
  | ok value machine => exact weaker value machine yields
  | error stop machine => trivial

theorem yields_unifyAll (fuel : Nat) (lefts rights : List Term) (machine : Machine) :
    Yields (fun unified later => ∃ store,
        machine.bindings.unifyAll fuel lefts rights = (some unified, store) ∧
          later = { machine with bindings := store })
      (Run.unifyAll fuel lefts rights machine) := by
  rw [Run.unifyAll]
  rcases result : machine.bindings.unifyAll fuel lefts rights with ⟨outcome, store⟩
  cases outcome with
  | some unified => exact ⟨store, rfl, rfl⟩
  | none => trivial

/-- The instances of a term under some answers. -/
def instancesUnder (names : List (String × Nat)) (template : Term) (found : List Answer) : Set Term :=
  ⋃ answer ∈ found, answer.groundInstances names template

@[simp] theorem instancesUnder_nil : instancesUnder names template [] = ∅ := by
  simp [instancesUnder]

theorem instancesUnder_reverse (found : List Answer) :
    instancesUnder names template found.reverse = instancesUnder names template found := by
  simp [instancesUnder]

theorem instancesUnder_cons (answer : Answer) (found : List Answer) :
    instancesUnder names template (answer :: found) =
      answer.groundInstances names template ∪ instancesUnder names template found := by
  simp only [instancesUnder, List.mem_cons, Set.iUnion_iUnion_eq_or_left]

/-- A search that ends without a cut adds answers with given instances to those found so far. It leaves the bindings,
the program and the procedures as they were. -/
structure Adds (names : List (String × Nat)) (template : Term) (instances : Set Term) (found : List Answer)
    (before : Machine) (outcome : Outcome (List Answer)) (after : Machine) : Prop where
  /-- Other solutions are asked for. -/
  signal : outcome.1 = .more
  bindings : after.bindings = before.bindings
  program : after.program = before.program
  procedures : after.procedures = before.procedures
  /-- The instances under all answers found by then. -/
  instances : instancesUnder names template outcome.2 = instancesUnder names template found ∪ instances

namespace Adds

variable {found found' : List Answer} {before between after : Machine} {outcome : Outcome (List Answer)}
  {left right : Set Term}

theorem nothing (found : List Answer) (machine : Machine) :
    Adds names template ∅ found machine (.more, found) machine :=
  ⟨rfl, rfl, rfl, rfl, (Set.union_empty _).symm⟩

theorem trans {signal : Signal} (first : Adds names template left found before (signal, found') between)
    (second : Adds names template right found' between outcome after) :
    Adds names template (left ∪ right) found before outcome after where
  signal := second.signal
  bindings := second.bindings.trans first.bindings
  program := second.program.trans first.program
  procedures := second.procedures.trans first.procedures
  instances := by rw [second.instances, first.instances, Set.union_assoc]

/-- What was found from a store that has grown is found once it is undone. -/
theorem undone {store : Bindings}
    (adds : Adds names template left found { before with bindings := store } outcome after)
    (grown : before.bindings.Grown store) :
    Adds names template left found before outcome
      { after with bindings := after.bindings.undoTo before.bindings.mark } where
  signal := adds.signal
  bindings := by
    rw [adds.bindings]
    exact grown.undoTo
  program := adds.program
  procedures := adds.procedures
  instances := adds.instances

end Adds

/-! ## Constructs -/

/-- A machine that has come to some goals in a search. -/
structure Arrives (machine : Machine) (start : Resolvent) (goals : List Term) (before : Machine) : Prop where
  program : before.program = machine.program
  procedures : before.procedures = machine.procedures
  reached : Resolvent.Reaches machine.program start ⟨goals, before.bindings⟩

theorem Arrives.step {machine before later : Machine} {start : Resolvent} {goals goals' : List Term}
    (arrives : Arrives machine start goals before) (program : later.program = before.program)
    (procedures : later.procedures = before.procedures)
    (step : Resolvent.Step machine.program ⟨goals, before.bindings⟩ ⟨goals', later.bindings⟩) :
    Arrives machine start goals' later :=
  ⟨program.trans arrives.program, procedures.trans arrives.procedures, arrives.reached.tail step⟩

theorem Arrives.of_adds {before after : Machine} {start : Resolvent} {goals : List Term}
    (arrives : Arrives machine start goals before) {instances : Set Term} {found : List Answer}
    {outcome : Outcome (List Answer)} (adds : Adds names template instances found before outcome after) :
    Arrives machine start goals after :=
  ⟨adds.program.trans arrives.program, adds.procedures.trans arrives.procedures, adds.bindings ▸ arrives.reached⟩

/-- A continuation that adds the solutions of the goals that are left, wherever the search comes to them. -/
def Finds (machine : Machine) (predicates : Set (String × Nat)) (names : List (String × Nat)) (template : Term)
    (start : Resolvent) (goals : List Term) (k : Continuation (List Answer)) : Prop :=
  ∀ found before, Arrives machine start goals before →
    Yields (Adds names template
      (Resolvent.solutions (machine.program.leastModel predicates) template ⟨goals, before.bindings⟩) found before)
      (k found before)

section

variable {machine : Machine} {predicates : Set (String × Nat)} {start : Resolvent} {goals : List Term}
  {k : Continuation (List Answer)}

/-- The end of a search adds the solutions of its store. -/
theorem finds_noteAnswer
    (acyclic : Resolvent.CircleFree machine.program start)
    (shown : ∀ id ∈ template.occurrences, ∃ name, (name, id) ∈ names) :
    Finds machine predicates names template start [] (noteAnswer names none) := by
  intro found before arrives
  rw [noteAnswer, Run.checkEnds_bind]
  split_ifs
  · have whole := groundInstances_answerFor shown (acyclic _ arrives.reached)
      (machine.program.leastModel predicates)
    refine (⟨rfl, rfl, rfl, rfl, ?_⟩ : Adds names template _ found before
      (.more, answerFor names before.bindings :: found) before)
    rw [instancesUnder_cons, whole, Set.union_comm]
  · trivial

variable {solver : Solver} {name : String} {args : List Term}

/-- Alternatives add their solutions one after the other. -/
theorem finds_either {left right : Term} {depth barrier : Nat}
    (first : Finds machine predicates names template start (left :: goals) (solver _ left depth barrier k))
    (second : Finds machine predicates names template start (right :: goals) (solver _ right depth barrier k)) :
    Finds machine predicates names template start (.binary ";" left right :: goals)
      (solveEither solver left right depth barrier k) := by
  intro found before arrives
  rw [Resolvent.solutions_either]
  refine (first found before (arrives.step rfl rfl (.either (by simp)))).bind ?_
  rintro ⟨signal, found'⟩ between adds
  obtain rfl : signal = .more := adds.signal
  have arrives' := (arrives.of_adds adds).step rfl rfl (.either (by simp : right ∈ [left, right]))
  have rest := second found' between arrives'
  rw [adds.bindings] at rest
  exact rest.imp fun _ _ more => adds.trans more

variable (part : machine.DefinitePart predicates) (proper : start.Proper predicates start.bindings.size)
include part proper

/-- An equation adds the solutions of its most general unifier. -/
theorem finds_equate (fuel : Nat) (left right : Term)
    (continues : Finds machine predicates names template start goals k) :
    Finds machine predicates names template start (.binary "=" left right :: goals) (equate fuel [left] [right] k) := by
  intro found before arrives
  have ordered := arrives.reached.proper part proper
  obtain ⟨belowLeft, belowRight⟩ := ordered.below_equal
  rw [equate, Run.mark_bind]
  refine (yields_unifyAll fuel [left] [right] before).bind ?_
  rintro unified _ ⟨store, result, rfl⟩
  cases unified with
  | true =>
    have equated := Bindings.equated_of_unifyAll ordered.formed belowLeft belowRight result
    rw [Resolvent.solutions_equal _ _ _ equated]
    exact (continues found { before with bindings := store } (arrives.step rfl rfl (.equal result))).bind
      fun outcome after adds => adds.undone equated.grown
  | false =>
    obtain ⟨rfl, unsolvable⟩ := Bindings.unsolvable_of_unifyAll ordered.formed belowLeft belowRight result
    rw [Resolvent.solutions_unequal _ _ _ unsolvable]
    exact Adds.nothing found before

/-- Clauses for a call add their solutions one after the other. -/
theorem yields_tryClauses (fuel : Nat) (depth inner : Nat)
    (solves : ∀ body depth, Finds machine predicates names template start (body :: goals)
      (solver _ body depth inner k)) (ordinary : Goal.ofCall name args = .predicate name args) {clauses : List Clause}
    (listed : ∀ clause ∈ clauses, clause ∈ machine.program.clausesFor name args.length) (found : List Answer)
    {before : Machine} (arrives : Arrives machine start (.build name args :: goals) before) :
    Yields (Adds names template (⋃ clause ∈ clauses,
        Resolvent.solutionsBy (machine.program.leastModel predicates) template args goals before.bindings clause)
        found before)
      (tryClauses fuel solver args depth inner k clauses found before) := by
  induction clauses generalizing found before with
  | nil =>
    simp only [List.not_mem_nil, Set.iUnion_of_empty, Set.iUnion_empty]
    exact Adds.nothing found before
  | cons clause clauses ih =>
    rw [List.forall_mem_cons] at listed
    have ordered := arrives.reached.proper part proper
    obtain ⟨belowParams, belowArgs, -, -⟩ := ordered.below_call part ordinary listed.1
    have reserved := Bindings.Grown.reserve before.bindings (before.bindings.size + clause.width)
    -- The other clauses start from the machine that the first one leaves.
    have others : ∀ {found' : List Answer} {between : Machine},
        Adds names template (Resolvent.solutionsBy (machine.program.leastModel predicates) template args goals
          before.bindings clause) found before (.more, found') between →
        Yields (Adds names template (⋃ each ∈ clause :: clauses,
          Resolvent.solutionsBy (machine.program.leastModel predicates) template args goals before.bindings each)
          found before) (tryClauses fuel solver args depth inner k clauses found' between) := by
      intro found' between adds
      have rest := ih listed.2 found' (arrives.of_adds adds)
      rw [adds.bindings] at rest
      simp only [List.mem_cons, Set.iUnion_iUnion_eq_or_left]
      exact rest.imp fun _ _ more => adds.trans more
    rw [tryClauses, Run.mark_bind, Run.copyClause_bind]
    refine (yields_unifyAll fuel (clause.instantiate before.bindings.size).1 args { before with
      bindings := before.bindings.reserve (before.bindings.size + clause.width) }).bind ?_
    rintro unified _ ⟨store, result, rfl⟩
    cases unified with
    | true =>
      have equated := Bindings.equated_of_unifyAll (ordered.formed.reserve _) belowParams belowArgs result
      refine (solves (clause.instantiate before.bindings.size).2 (depth + 1) found { before with bindings := store }
        (arrives.step rfl rfl (.call ordinary listed.1 result))).bind ?_
      rintro ⟨signal, found'⟩ between adds
      obtain rfl : signal = .more := adds.signal
      rw [← Resolvent.solutionsBy_unified equated] at adds
      exact others (adds.undone (reserved.trans equated.grown))
    | false =>
      obtain ⟨rfl, unsolvable⟩ := Bindings.unsolvable_of_unifyAll (ordered.formed.reserve _) belowParams belowArgs
        result
      refine others (Adds.undone ?_ reserved)
      rw [Resolvent.solutionsBy_clash unsolvable]
      exact Adds.nothing found _

/-- A call adds the solutions by all clauses of its predicate. -/
theorem finds_call (fuel : Nat) (depth : Nat) (member : (name, args.length) ∈ predicates)
    (shown : template.Below start.bindings.size)
    (solves : ∀ body depth barrier, Finds machine predicates names template start (body :: goals)
      (solver _ body depth barrier k)) :
    Finds machine predicates names template start (.build name args :: goals)
      (callPredicate fuel solver name args depth k) := by
  intro found before arrives
  rw [Resolvent.solutions_call part (arrives.reached.proper part proper) member shown, callPredicate, Run.get_bind,
    arrives.program, arrives.procedures]
  cases listed : machine.program.clausesFor name args.length with
  | nil =>
    simp only [part.undefined name _ member listed]
    trivial
  | cons clause clauses =>
    have checked : Yields (fun _ later => before = later) (Run.checkDepth depth before) := by
      rw [Run.checkDepth, Run.get_bind]
      cases before.settings.depthLimit with
      | none => exact rfl
      | some limit =>
        by_cases deep : limit ≤ depth
        · simp only [deep, if_true]
          trivial
        · simp only [deep, if_false]
          exact rfl
    refine checked.bind ?_
    rintro _ _ rfl
    rw [Run.newBarrier_bind]
    have barred : Arrives machine start (.build name args :: goals)
        { before with barriers := before.barriers + 1 } := { arrives with }
    have among : ∀ each ∈ clause :: clauses, each ∈ machine.program.clausesFor name args.length := by simp [listed]
    have tried := yields_tryClauses part proper fuel depth (before.barriers + 1)
      (fun body depth => solves body depth _) (part.ordinary name args member) among found barred
    exact tried.imp fun _ _ adds => { adds with }

/-- Solving a definite goal adds the solutions of the goal and those that are left. -/
theorem finds_solve (shown : template.Below start.bindings.size) (fuel : Nat) {goal : Term} {goals : List Term}
    {k : Continuation (List Answer)} (continues : Finds machine predicates names template start goals k)
    (depth barrier : Nat) :
    Finds machine predicates names template start (goal :: goals) (solve fuel _ goal depth barrier k) := by
  induction fuel generalizing goal goals k depth barrier with
  | zero => exact fun _ _ _ => trivial
  | succ fuel ih =>
    intro found before arrives
    have definite := (arrives.reached.proper part proper).first.1
    have asked := solve_succ definite.isVar_eq_false fuel depth barrier k found
    cases definite with
    | truth =>
      rw [asked, Resolvent.solutions_truth]
      exact continues found before (arrives.step rfl rfl .truth)
    | failure =>
      rw [asked, Resolvent.solutions_failure]
      exact Adds.nothing found before
    | both _ _ =>
      rw [asked, Resolvent.solutions_both]
      exact ih (ih continues depth barrier) depth barrier found before (arrives.step rfl rfl .both)
    | @either left right definite _ =>
      have known : before.bindings.walk left = left :=
        Bindings.walk_of_isVar_eq_false definite.isVar_eq_false
      have unconditional := definite.binary?_arrow part
      have chosen : solve (fuel + 1) _ (.binary ";" left right) depth barrier k found before =
          solveEither (solve fuel) left right depth barrier k found before := by
        rw [asked]
        change (Run.walk left >>= _) before = _
        rw [Run.walk_bind, known, unconditional]
      rw [chosen]
      exact finds_either (ih continues depth barrier) (ih continues depth barrier) found before arrives
    | equal left right =>
      have performed : solve (fuel + 1) _ (.binary "=" left right) depth barrier k found before =
          equate fuel [left] [right] k found before := by
        have goal : Goal.ofTerm (.binary "=" left right) =
            .ok (.builtin fun _ _ => .ok (.equate 0 [left] [right])) := rfl
        rw [asked, goal]
        change achieve fuel _ (.builtin _) depth barrier k found before = _
        rw [achieve, Run.get_bind]
        change (Run.take 0 >>= _) before = _
        rw [Run.take_bind, Nat.add_zero, Bindings.reserve_size]
      rw [performed]
      exact finds_equate part proper fuel left right continues found before arrives
    | @call name args member =>
      rw [asked, Goal.ofTerm_build, part.ordinary name args member]
      exact finds_call part proper fuel depth member shown (fun body depth barrier => ih continues depth barrier)
        found before arrives

end

/-! ## Queries -/

/-- The walk that looks for loops does not enter calls of predicates. -/
theorem DefinitePart.isLeaf (part : machine.DefinitePart predicates) {name : String} {args : List Term}
    (member : (name, args.length) ∈ predicates) : IsLeaf (.build name args) := by
  have ordinary := part.ordinary name args member
  match args with
  | [] => trivial
  | [_] =>
    refine Bool.eq_false_iff.mpr fun modality => ?_
    simp only [isModality, Bool.or_eq_true, decide_eq_true_eq] at modality
    rcases modality with rfl | rfl <;> contradiction
  | [_, _] =>
    refine ⟨Goal.isJunction_eq_false ordinary, ?_⟩
    rintro rfl
    contradiction
  | _ :: _ :: _ :: _ => trivial

/-- Preparing a definite goal leaves it as it is: it has no loops. -/
theorem treatGoal_definite {m : Type → Type} [Monad m] [LawfulMonad m] (part : machine.DefinitePart predicates)
    (definite : Definite predicates goal) (treat : LoopTreatment m) (outside : VarSet) :
    treatGoal treat goal outside = pure (goal, []) := by
  induction definite generalizing outside with
  | truth => rfl
  | failure => rfl
  | @both left right _ _ ihLeft ihRight =>
    simp [Term.both, treatGoal_junction treat (show isJunction "," = true from rfl), ihLeft, ihRight]
  | @either left right _ _ ihLeft ihRight =>
    simp [treatGoal_junction treat (show isJunction ";" = true from rfl), ihLeft, ihRight]
  | equal left right => rfl
  | @call name args member => exact treatGoal_leaf treat (part.isLeaf member) outside

theorem prepareGoal_definite (part : machine.DefinitePart predicates) (definite : Definite predicates goal)
    (before : Machine) : prepareGoal goal before = .ok (goal, []) before := by
  rw [prepareGoal, Run.get_bind]
  by_cases ahead : before.settings.expandsAhead = true
  · rw [if_pos ahead, Run.compiling, Compiler.expandGoal, treatGoal_definite part definite]
    simp only [pure, EStateM.pure, Bindings.reserve_size]
  · rw [if_neg ahead, settleGoal, treatGoal_definite part definite]
    rfl

theorem Yields.restoring {holds : α → Prop} (yields : Yields (fun value _ => holds value) (action machine)) :
    Yields (fun value _ => holds value) (Run.restoring action machine) := by
  rw [Run.restoring]
  cases result : action machine with
  | ok value later =>
    rw [result] at yields
    exact yields
  | error stop later => trivial

/-- If a query over definite clauses comes to an end, and no unification on the way made a circle, then the instances
of the goal without variables that are true in the least model of the program are those under the answers. -/
theorem trueInstances_eq_answers {fuel : Nat} {text : String} {machine after : Machine}
    {predicates : Set (String × Nat)} {read : ReadTerm} {next : Nat} {found : List Answer}
    (part : machine.DefinitePart predicates) (idle : machine.bindings = .empty)
    (reads : readTerm text 0 = .ok read next) (definite : Definite predicates read.term)
    (shown : ∀ id ∈ read.term.occurrences, ∃ name, (name, id) ∈ shownNames read)
    (acyclic : Resolvent.CircleFree machine.program ⟨[read.term], Bindings.empty.reserve next⟩)
    (answered : query fuel text machine = .ok found after) :
    {ground ∈ read.term.groundInstances | ground.TrueIn (machine.program.leastModel predicates)} =
      ⋃ answer ∈ found, answer.groundInstances (shownNames read) read.term := by
  have below : read.term.Below next := (readTerm_below reads).1
  let start : Resolvent := ⟨[read.term], Bindings.empty.reserve next⟩
  have size : start.bindings.size = next := by simp [start]
  have proper : start.Proper predicates start.bindings.size :=
    ⟨Bindings.WellFormed.empty.reserve next, Nat.le_refl _, by simpa [start] using definite,
      by simpa [start, Bindings.AllBelow] using below⟩
  have finds : Finds machine predicates (shownNames read) read.term start [read.term]
      (solve fuel _ read.term 0 (machine.barriers + 1) (noteAnswer (shownNames read) none)) :=
    finds_solve part proper (size ▸ below) fuel (finds_noteAnswer acyclic shown) 0 (machine.barriers + 1)
  have yields : Yields (fun found _ => instancesUnder (shownNames read) read.term found =
      start.solutions (machine.program.leastModel predicates) read.term) (query fuel text machine) := by
    refine Yields.restoring ?_
    have reads' : readTerm text machine.bindings.size = .ok read next := by
      rw [idle]
      exact reads
    rw [Run.supplied_bind_ok reads', bind_of_ok (prepareGoal_definite part definite _)]
    change Yields _ ((Run.report read.names [] >>= _) _)
    rw [Run.report_bind, Run.newBarrier_bind]
    have begun : (⟨[read.term], machine.bindings.reserve next⟩ : Resolvent) = start := by rw [idle]
    refine (finds [] _ ?_).bind ?_
    · have reached : Resolvent.Reaches machine.program start ⟨[read.term], machine.bindings.reserve next⟩ := by
        rw [begun]
      exact ⟨rfl, rfl, reached⟩
    · rintro ⟨signal, found'⟩ later adds
      have whole : instancesUnder (shownNames read) read.term found' = _ := adds.instances
      rw [instancesUnder_nil, Set.empty_union] at whole
      rw [← begun]
      exact (instancesUnder_reverse found').trans whole
  rw [answered] at yields
  rw [← instancesUnder, yields]
  have free : ∀ solution, start.bindings.Satisfies solution := by
    intro solution
    refine Bindings.satisfies_reserve.mpr fun id value bound => ?_
    rw [Bindings.lookup?_eq_none_of_size_le (Nat.zero_le id)] at bound
    contradiction
  ext ground
  simp only [Set.mem_ofPred_eq, Term.mem_groundInstances, start, Resolvent.mem_solutions, List.forall_mem_singleton]
  constructor
  · rintro ⟨⟨valuation, rfl⟩, true'⟩
    exact ⟨valuation, free _, true', rfl⟩
  · rintro ⟨valuation, _, true', rfl⟩
    exact ⟨⟨valuation, rfl⟩, true'⟩

/-- The edges of a graph, and the paths along them. -/
def paths : Program := ⟨[
  ⟨.build "edge" [.atom "a", .atom "b"], .truth, 0⟩,
  ⟨.build "edge" [.atom "b", .atom "c"], .truth, 0⟩,
  ⟨.build "path" [.var 0, .var 1], .binary ";" (.build "edge" [.var 0, .var 1])
    (.both (.build "edge" [.var 0, .var 2]) (.both (.build "path" [.var 2, .var 3]) (.binary "=" (.var 3) (.var 1)))),
    4⟩]⟩

/-- The predicates of the graph. -/
def pathPredicates : Set (String × Nat) := {("edge", 2), ("path", 2)}

theorem definite_of_mem_paths {clause : Clause} (member : clause ∈ paths.clauses) :
    Definite pathPredicates clause.body ∧
      (clause.head.Below clause.width ∧ clause.body.Below clause.width) ∧ clause.Flat := by
  have edge : ∀ args, args.length = 2 → Definite pathPredicates (.build "edge" args) := fun args two =>
    .call (by simp [pathPredicates, two])
  have path : ∀ args, args.length = 2 → Definite pathPredicates (.build "path" args) := fun args two =>
    .call (by simp [pathPredicates, two])
  simp only [paths, List.mem_cons, List.not_mem_nil, or_false] at member
  rcases member with rfl | rfl | rfl
  · exact ⟨.truth, by decide, by decide, by simp [Term.FlatGoal, Term.truth, Term.args]⟩
  · exact ⟨.truth, by decide, by decide, by simp [Term.FlatGoal, Term.truth, Term.args]⟩
  · refine ⟨.either (edge _ rfl) (.both (edge _ rfl) (.both (path _ rfl) (.equal _ _))), by decide, by decide, ?_⟩
    simp [Term.FlatGoal, Term.binary, Term.both, Term.build, Term.args, isJunction]

theorem definitePart_paths : ({ program := paths } : Machine).DefinitePart pathPredicates := by
  refine ⟨?_, fun _ _ _ clause among => (definite_of_mem_paths (List.mem_filter.mp among).1).1,
    fun _ _ _ clause among => (definite_of_mem_paths (List.mem_filter.mp among).1).2.1, fun _ _ _ _ => rfl⟩
  intro name args member
  have named : (name = "edge" ∨ name = "path") ∧ args.length = 2 := by
    simpa [pathPredicates, ← or_and_right] using member
  obtain ⟨left, right, rfl⟩ := List.length_eq_two.mp named.2
  rcases named.1 with rfl | rfl <;> rfl

theorem exists_query_paths_eq : ∃ after, query 20 "path(a, X)" { program := paths } =
    .ok [⟨[("X", .atom "b")]⟩, ⟨[("X", .atom "c")]⟩] after :=
  exists_of_run' (by decide +kernel)

theorem trueInstances_eq_answers_paths :
    {ground ∈ (Term.build "path" [.atom "a", .var 0]).groundInstances |
        ground.TrueIn (paths.leastModel {("edge", 2), ("path", 2)})} =
      {.build "path" [.atom "a", .atom "b"], .build "path" [.atom "a", .atom "c"]} := by
  let goal := Term.build "path" [.atom "a", .var 0]
  have reads : readTerm "path(a, X)" 0 = .ok ⟨goal, [("X", 0)]⟩ 1 := by cbv
  obtain ⟨after, answered⟩ := exists_query_paths_eq
  have definite : Definite pathPredicates goal := .call (by simp [pathPredicates])
  have shown : ∀ id ∈ goal.occurrences, ∃ name, (name, id) ∈ [("X", 0)] := by simp [goal]
  have proper : Resolvent.Proper pathPredicates 1 ⟨[goal], Bindings.empty.reserve 1⟩ :=
    ⟨Bindings.WellFormed.empty.reserve 1, by decide, by simpa using definite, by decide⟩
  have flat : Resolvent.Flat ⟨[goal], Bindings.empty.reserve 1⟩ := by
    refine ⟨by simp [goal, Term.FlatGoal, Term.build, Term.args, isJunction], Bindings.Flat.reserve ?_ 1⟩
    intro id value bound
    rw [Bindings.lookup?_eq_none_of_size_le (Nat.zero_le id)] at bound
    contradiction
  have circleFree := flat.circleFree definitePart_paths (fun clause member => (definite_of_mem_paths member).2.2) proper
  have each : ∀ name, (⟨[("X", .atom name)]⟩ : Answer).groundInstances [("X", 0)] goal =
      {.build "path" [.atom "a", .atom name]} := by
    intro name
    have assigns : (⟨[("X", .atom name)]⟩ : Answer).Assigns [("X", 0)] fun _ => .atom name := rfl
    exact assigns.groundInstances_eq shown rfl
  calc _ = instancesUnder [("X", 0)] goal [⟨[("X", .atom "b")]⟩, ⟨[("X", .atom "c")]⟩] :=
        trueInstances_eq_answers definitePart_paths rfl reads definite shown circleFree answered
    _ = _ := by rw [instancesUnder_cons, instancesUnder_cons, instancesUnder_nil, each, each, Set.union_empty,
        Set.singleton_union]

end Machine

end HornLoops
