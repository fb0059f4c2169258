import HornLoops.Proofs.Machine.LoopGoals

/-!
# Queries with given values

A query may give some of its variables values before it asks for a goal. What the goal presents when these values are
known makes up the answers to the query: each solution tells the values of some variables, and the other variables are
unbound. An error at the end takes the place of all answers.
-/

namespace HornLoops

open Machine Bindings

/-! ## Values of variables -/

/-- Variables have given values. -/
def Known (known : List (Nat × Term)) (outer : Nat → Term) : Prop := ∀ entry ∈ known, outer entry.1 = entry.2

/-- The value of a variable. One without a value stands for itself. -/
def valueAmong (known : List (Nat × Term)) (id : Nat) : Term := (known.lookup id).getD (.var id)

/-- Values of different variables, in which no variables occur. -/
structure Determines (known : List (Nat × Term)) : Prop where
  /-- The variables are different. -/
  distinct : (known.map Prod.fst).Nodup
  /-- The values are ground. -/
  ground : ∀ entry ∈ known, entry.2.occurrences = []

variable {outer value : Nat → Term} {invariant : Machine → Prop} {bindings : Bindings} {limit count : Nat}
  {goals : List Term}

theorem known_cons {entry : Nat × Term} {known : List (Nat × Term)} :
    Known (entry :: known) outer ↔ outer entry.1 = entry.2 ∧ Known known outer := List.forall_mem_cons

theorem lookup_eq_none_of_notMem {known : List (Nat × Term)} {id : Nat} (other : id ∉ known.map Prod.fst) :
    known.lookup id = none := by
  rw [List.lookup_eq_none_iff]
  intro entry member
  have differ : id ≠ entry.1 := by
    intro same
    exact other (same ▸ List.mem_map_of_mem member)
  simpa using differ

/-- Where no variable has two entries, each is found. -/
theorem lookup_eq_some_of_mem {α : Type} {entries : List (Nat × α)} (distinct : (entries.map Prod.fst).Nodup)
    {entry : Nat × α} (member : entry ∈ entries) : entries.lookup entry.1 = some entry.2 := by
  induction entries with
  | nil => cases member
  | cons first entries ih =>
    rw [List.map_cons, List.nodup_cons] at distinct
    rcases List.mem_cons.mp member with rfl | member
    · simp [List.lookup]
    · have other : entry.1 ≠ first.1 := by
        intro same
        exact distinct.1 (same ▸ List.mem_map_of_mem member)
      rw [List.lookup_cons, beq_eq_false_iff_ne.mpr other]
      exact ih distinct.2 member

namespace Determines

variable {known : List (Nat × Term)} (determines : Determines known)
include determines

theorem cons {id : Nat} {value : Term} (other : id ∉ known.map Prod.fst) (ground : value.occurrences = []) :
    Determines ((id, value) :: known) where
  distinct := List.nodup_cons.mpr ⟨other, determines.distinct⟩
  ground := List.forall_mem_cons.mpr ⟨ground, determines.ground⟩

theorem lookup_eq {entry : Nat × Term} (member : entry ∈ known) : known.lookup entry.1 = some entry.2 :=
  lookup_eq_some_of_mem determines.distinct member

/-- Known values can be put in for variables. -/
theorem subst_subst {outer : Nat → Term} (holds : Known known outer) (term : Term) :
    (term.subst (valueAmong known)).subst outer = term.subst outer := by
  rw [Term.subst_subst]
  refine Term.subst_congr fun id _ => ?_
  rw [valueAmong]
  cases found : known.lookup id with
  | none => rfl
  | some value =>
    have member := mem_of_lookup_eq_some found
    have ground := determines.ground _ member
    rw [Option.getD_some, holds _ member, Term.subst_eq_self (by simp [ground])]

/-- A term that is a list with the known values put in is a list. -/
theorem subst_eq_list {outer : Nat → Term} (holds : Known known outer) {term : Term} {items : List Term}
    (listed : term.subst (valueAmong known) = .list items) : term.subst outer = .list (items.map (Term.subst outer)) := by
  rw [← determines.subst_subst holds, listed, Term.subst_list]

/-- Variables can have the values, whatever the other variables are. -/
theorem exists_known (outer : Nat → Term) :
    ∃ value, Known known value ∧ ∀ id ∉ known.map Prod.fst, value id = outer id := by
  refine ⟨fun id => (known.lookup id).getD (outer id), fun entry member => ?_, fun id other => ?_⟩
  · simp [determines.lookup_eq member]
  · simp [lookup_eq_none_of_notMem other]

end Determines

/-! ## Goals that give values -/

/-- A goal that gives a variable a value: a term without variables, or the value of a constant expression. -/
inductive Assigns : Term → Nat × Term → Prop
  | equal (id : Nat) {value : Term} (ground : value.occurrences = []) :
      Assigns (.binary "=" (.var id) value) (id, value)
  | evaluate (id : Nat) {expression : Term} {word : Int64} (constant : expression.constant? = some word) :
      Assigns (.binary "is" (.var id) expression) (id, .int word)

theorem Arithmetic.evalWith_binary {value : Nat → Value} {name : String} {left right : Term} {word word' : Int64}
    (first : evalWith value left = .ok word) (second : evalWith value right = .ok word') :
    evalWith value (.binary name left right) = binary name word word' := by
  simp only [Term.binary, evalWith, first, second]
  rfl

namespace Assigns

variable {goal : Term} {entry : Nat × Term} (assigns : Assigns goal entry)
include assigns

theorem ne_truth : goal ≠ .truth := by
  cases assigns <;> simp [Term.binary, Term.truth]

theorem loopless : Loopless goal := by
  cases assigns <;> exact loopless_leaf ⟨rfl, by simp⟩

theorem ground : entry.2.occurrences = [] := by
  cases assigns with
  | equal id ground => exact ground
  | evaluate id constant => rfl

theorem mem_occurrences : entry.1 ∈ goal.occurrences := by
  cases assigns <;> simp [Term.binary]

/-- The goal is solved if the variable can have the value. -/
theorem exists_attains {invariant : Machine → Prop} (steady : Steady invariant) {bindings : Bindings} {limit : Nat}
    {names : List Nat} {fact : (Nat → Term) → (Nat → Term) → Prop} (scope : bindings.Scope limit names id fact)
    (inside : ∀ id ∈ goal.occurrences, id ∈ names) {outer value : Nat → Term} (holds : fact outer value)
    (possible : value entry.1 = entry.2) (σ : Type) (depth : Nat) :
    ∃ after, Attains invariant (solving σ goal depth) bindings after ∧
      after.Scope limit names id fun outer value => fact outer value ∧ value entry.1 = entry.2 := by
  have same : goal.rename id = goal := Term.rename_eq_self fun _ _ => rfl
  have known := inside _ assigns.mem_occurrences
  rw [← same]
  cases assigns with
  | @equal id term ground =>
    have fixed (value : Nat → Term) : term.subst value = term := Term.subst_eq_self (by simp [ground])
    have knownVar : ∀ other ∈ (Term.var id).occurrences, other ∈ names := by simpa using known
    have knownTerm : ∀ other ∈ term.occurrences, other ∈ names := by simp [ground]
    have agree : (Term.var id).subst value = term.subst value := by rw [fixed]; exact possible
    obtain ⟨after, attains, scope'⟩ := scope.unify (σ := σ) holds steady knownVar knownTerm agree depth
    refine ⟨after, attains, scope'.congr fun outer value => ?_⟩
    rw [fixed, Term.subst_var]
  | @evaluate id expression word constant =>
    have valued (outer value : Nat → Term) (_ : fact outer value) :
        Arithmetic.evalWith (fun _ => .error .unbound) (expression.subst value) = .ok word := by
      rw [Arithmetic.evalWith_subst]
      exact Term.evalWith_of_constant? constant _
    exact scope.evaluate holds steady known possible valued depth

end Assigns

theorem exists_of_assigns {known : List (Nat × Term)} (assigns : List.Forall₂ Assigns goals known) :
    (∀ goal ∈ goals, ∃ entry, Assigns goal entry) ∧ ∀ entry ∈ known, ∃ goal ∈ goals, Assigns goal entry := by
  induction assigns with
  | nil => simp
  | cons first _ ih =>
    refine ⟨List.forall_mem_cons.mpr ⟨⟨_, first⟩, ih.1⟩,
      List.forall_mem_cons.mpr ⟨⟨_, List.mem_cons_self, first⟩, fun entry member => ?_⟩⟩
    obtain ⟨goal, inside, assigns⟩ := ih.2 entry member
    exact ⟨goal, List.mem_cons_of_mem _ inside, assigns⟩

/-- Goals that give different variables values are solved one after the other, and then the values are known. -/
theorem exists_runs_assigns (steady : Steady invariant) {known : List (Nat × Term)}
    (assigns : List.Forall₂ Assigns goals known) {names : List Nat} {fact : (Nat → Term) → (Nat → Term) → Prop}
    (scope : bindings.Scope limit names id fact) (inside : ∀ goal ∈ goals, ∀ id ∈ goal.occurrences, id ∈ names)
    (holds : fact outer value) (possible : Known known value) (σ : Type) (depth : Nat) :
    ∃ after, Runs invariant σ depth goals bindings after ∧
      after.Scope limit names id fun outer value => fact outer value ∧ Known known value := by
  induction assigns generalizing bindings fact with
  | nil => exact ⟨bindings, .done bindings, scope.congr fun outer value => by simp [Known]⟩
  | @cons goal entry goals known assigns _ ih =>
    obtain ⟨first, rest⟩ := known_cons.mp possible
    obtain ⟨insideFirst, insideRest⟩ := List.forall_mem_cons.mp inside
    obtain ⟨between, attains, scope'⟩ := assigns.exists_attains steady scope insideFirst holds first σ depth
    obtain ⟨after, runs, scope''⟩ := ih scope' insideRest ⟨holds, first⟩ rest
    refine ⟨after, .step assigns.ne_truth attains runs, scope''.congr fun outer value => ?_⟩
    rw [known_cons, and_assoc]

/-! ## Answers -/

/-- The answer that tells the values of some variables. -/
def valuedAnswer (names : List (String × Nat)) (known : List (Nat × Term)) : Answer :=
  ⟨names.map fun (name, id) => (name, valueAmong known id)⟩

/-- The answer in which one variable is a list and the others have no values. -/
def collectedAnswer (names : List (String × Nat)) (out : Nat) (items : List Term) : Answer :=
  ⟨names.map fun (name, id) => (name, if id = out then .list items else .var id)⟩

theorem valuedAnswer_list (names : List (String × Nat)) (out : Nat) (items : List Term) :
    valuedAnswer names [(out, .list items)] = collectedAnswer names out items := by
  refine congrArg Answer.mk (List.map_congr_left fun entry _ => ?_)
  by_cases list : entry.2 = out
  · simp [valueAmong, list]
  · simp [valueAmong, list, List.lookup_cons, beq_eq_false_iff_ne.mpr list]

section

variable {bindings : Bindings} {limit : Nat} {known : List (Nat × Term)} (determines : Determines known)
include determines

/-- Variables of which nothing is known are unbound. -/
theorem Bindings.Tells.unbound (tells : bindings.Tells limit (Known known)) {id : Nat} (inside : id < limit)
    (other : id ∉ known.map Prod.fst) : bindings.lookup? id = none := by
  have free (outer : Nat → Term) : ∃ solution, bindings.Satisfies solution ∧ Known known solution ∧ solution id = outer id ∧
      ∀ older < limit, older ∉ known.map Prod.fst → solution older = outer older := by
    obtain ⟨value, holds, others⟩ := determines.exists_known outer
    obtain ⟨solution, satisfies, same⟩ := tells.complete value holds
    refine ⟨solution, satisfies, tells.sound solution satisfies, ?_, fun older small unknown => ?_⟩
    · rw [same id inside, others id other]
    · rw [same older small, others older unknown]
  cases cell : bindings.lookup? id with
  | none => rfl
  | some bound =>
    exfalso
    cases bound with
    | int number =>
      obtain ⟨solution, satisfies, _, value, _⟩ := free fun _ => .nil
      have same := satisfies id _ cell
      rw [value] at same
      simp [Term.nil] at same
    | atom _ | compound _ _ _ =>
      obtain ⟨solution, satisfies, _, value, _⟩ := free fun _ => .int 0
      have same := satisfies id _ cell
      rw [value] at same
      simp at same
    | var older =>
      -- The older variable has its known value, or any other one than this variable.
      have younger := tells.formed.older id older cell
      let given := (known.lookup older).getD .nil
      obtain ⟨solution, satisfies, holds, value, others⟩ := free fun each =>
        if each = id then (if given = .int 0 then .int 1 else .int 0) else .nil
      have same := satisfies id _ cell
      have valued : solution older = given := by
        cases found : known.lookup older with
        | some value =>
          have entry := holds _ (mem_of_lookup_eq_some found)
          simpa [given, found] using entry
        | none =>
          have unknown : older ∉ known.map Prod.fst := by
            intro member
            obtain ⟨entry, inside, rfl⟩ := List.mem_map.mp member
            rw [determines.lookup_eq inside] at found
            contradiction
          rw [others older (by omega) unknown, if_neg (by omega)]
          simp [given, found]
      rw [value, if_pos rfl, Term.subst_var, valued] at same
      by_cases zero : given = .int 0
      · simp [zero] at same
      · rw [if_neg zero] at same
        exact zero same.symm

/-- Answers are noted as far as values are told. -/
theorem takes_noteAnswer {names : List (String × Nat)} (below : ∀ entry ∈ names, entry.2 < limit)
    (final : Machine → Prop) :
    (noteAnswer names none).Takes final final (fun bindings => bindings.Tells limit (Known known))
      fun acc => .ok (valuedAnswer names known :: acc) := by
  intro machine acc holds tells
  obtain ⟨value, possible, _⟩ := determines.exists_known Term.var
  obtain ⟨solution, satisfies, _⟩ := tells.complete value possible
  have acyclic := tells.formed.acyclic_of_satisfies satisfies
  have ends : (names.map fun (_, id) => Term.var id).all machine.bindings.ends = true := by
    rw [List.all_eq_true]
    exact fun term _ => acyclic.ends term
  have answer : answerFor names machine.bindings = valuedAnswer names known := by
    simp only [answerFor, valuedAnswer, Answer.mk.injEq]
    refine List.map_congr_left fun entry member => ?_
    cases found : known.lookup entry.2 with
    | some value =>
      have fixes : machine.bindings.Fixes (.var entry.2) value := fun solution satisfies =>
        tells.sound solution satisfies _ (mem_of_lookup_eq_some found)
      rw [fixes.resolve acyclic, valueAmong, found, Option.getD_some]
    | none =>
      have unknown : entry.2 ∉ known.map Prod.fst := by
        intro inside
        obtain ⟨other, inside, same⟩ := List.mem_map.mp inside
        rw [← same, determines.lookup_eq inside] at found
        contradiction
      rw [resolve_unbound (tells.unbound determines (below entry member) unknown), valueAmong, found, Option.getD_none]
  have noted : noteAnswer names none acc machine = .ok (.more, valuedAnswer names known :: acc) machine := by
    simp [noteAnswer, Run.checkEnds, Bind.bind, EStateM.bind, get, getThe, MonadStateOf.get, EStateM.get, ends, Pure.pure,
      EStateM.pure, answer, enough]
  rw [noted]
  exact .same holds

end

section

variable (steady : Steady invariant) {way : LoopWay} {threads : Threads} {body : Term}
  (ready : way.Ready invariant threads body) {σ : Type} {depth : Nat}
  (admits : ∀ machine, invariant machine → machine.Admits depth) {args : List Term}
  (arity : args.length = threads.arity) {known : List (Nat × Term)} (determines : Determines known) {last : Term}
include steady ready admits arity determines

/-- A loop that ends when something is known. -/
theorem LoopWay.closes_known {relation : (Nat → Term) → List Term → Prop} {final : Nat}
    (ended : ∀ outer value, relation outer (threads.terminal.map (Term.subst value)) ↔
      Known known outer ∧ value final = last) (relates : bindings.Relates limit args relation) :
    way.Presents invariant σ threads body args depth bindings [fun after => after.Tells limit (Known known)] none := by
  obtain ⟨outer, holds, _⟩ := determines.exists_known Term.var
  refine closes steady admits ready arity relates ((ended outer fun _ => last).mpr ⟨holds, rfl⟩) fun outer =>
    ⟨fun holds => ⟨fun _ => last, (ended outer _).mpr ⟨holds, rfl⟩⟩, ?_⟩
  rintro ⟨value, related⟩
  exact ((ended outer value).mp related).1

/-- A loop over a list that ends with a value for an unbound variable. -/
theorem LoopWay.presents_result {final : Nat} (terminal : threads.terminal = [.nil, .var final, .var final]) {id : Nat}
    (other : id ∉ known.map Prod.fst) (ground : last.occurrences = [])
    (relates : bindings.Relates limit args fun outer values => Known known outer ∧ values = [.nil, last, outer id]) :
    way.Presents invariant σ threads body args depth bindings
      [fun after => after.Tells limit (Known ((id, last) :: known))] none := by
  have ended (outer value : Nat → Term) :
      (Known known outer ∧ threads.terminal.map (Term.subst value) = [.nil, last, outer id]) ↔
        Known ((id, last) :: known) outer ∧ value final = last := by
    simp only [known_cons, terminal, List.map_cons, List.map_nil, Term.subst_var]
    grind [Term.nil, Term.subst_atom]
  exact closes_known steady ready admits arity (determines.cons other ground) ended relates

end

/-- A query ends with certain answers, or with a certain error. -/
def Responded : Except RunError (List Answer) → EStateM.Result Stop Machine (List Answer) → Prop
  | .ok answers, result => ∃ later, result = .ok answers later
  | .error error, result => ∃ later, result = .error (.error error) later

/-- With enough fuel, a query has certain answers, or it ends with a certain error. -/
def Machine.Responds (machine : Machine) (text : String) (response : Except RunError (List Answer)) : Prop :=
  ∃ enough, ∀ fuel ≥ enough, Responded response (query fuel text machine)

/-- What is collected from solutions of which values are told. -/
theorem collectAll_valuedAnswer (names : List (String × Nat)) (outcomes : List (List (Nat × Term)))
    (fault : Option RunError) (acc : List Answer) :
    collectAll (outcomes.map fun known acc => .ok (valuedAnswer names known :: acc)) fault acc =
      fault.elim (.ok ((outcomes.map (valuedAnswer names)).reverse ++ acc)) .error := by
  induction outcomes generalizing acc with
  | nil => cases fault <;> rfl
  | cons known outcomes ih =>
    rw [List.map_cons, ← List.singleton_append, collectAll_append, collectAll_single]
    show collectAll _ fault (valuedAnswer names known :: acc) = _
    rw [ih]
    simp

/-! ## Queries -/

/-- A text that asks for a goal after giving different variables values. -/
structure Asks (text : String) (read : ReadTerm) (count : Nat) (known : List (Nat × Term)) (goal : Term) : Prop where
  /-- The text can be read. -/
  reads : readTerm text 0 = .ok read count
  /-- The goals that give values come before the goal. -/
  goals : ∃ goals, List.Forall₂ Assigns goals known ∧ read.term = .joinGoals (goals ++ [goal])
  /-- The variables are different. -/
  distinct : (known.map Prod.fst).Nodup

/-- What is known when the goal of a query is reached. -/
def Asked (count : Nat) (known : List (Nat × Term)) (outer value : Nat → Term) : Prop :=
  (∀ id < count, value id = outer id) ∧ Known known value

theorem Asked.known {known : List (Nat × Term)} (below : ∀ entry ∈ known, entry.1 < count)
    (asked : Asked count known outer value) : Known known outer := by
  intro entry member
  rw [← asked.1 entry.1 (below entry member), asked.2 entry member]

/-- Terms of the query have the values that they have outside. -/
theorem Asked.subst_eq {known : List (Nat × Term)} (asked : Asked count known outer value) {term : Term}
    (below : term.Below count) :
    term.subst value = term.subst outer := Term.subst_congr fun id occurs => asked.1 id (below id occurs)

/-- Nothing is known at first. -/
theorem Bindings.Blank.scope (blank : bindings.Blank) (formed : bindings.WellFormed) (around : limit ≤ bindings.size) :
    bindings.Scope limit (List.range bindings.size) id fun outer value => ∀ id < limit, value id = outer id where
  formed := formed
  around := around
  below _ member := List.mem_range.mp member
  sound _ _ _ _ := rfl
  complete _ value same := ⟨value, blank.satisfies value, same, fun _ _ => rfl⟩

/-- A search for the answers to a query ends as the query does. -/
theorem responded_of_concludes {fuel : Nat} {text : String} {machine prepared : Machine} {read : ReadTerm}
    {next : Nat} {goal : Term} {findings : List Diagnostic}
    (reads : readTerm text machine.bindings.size = .ok read next)
    (prepares : prepareGoal read.term { machine with bindings := machine.bindings.reserve next } =
      .ok (goal, findings) prepared) {fault : Option RunError} {found : List Answer}
    (ends : Concludes invariant bindings (fault.elim (.ok found.reverse) .error)
      (solve fuel (List Answer) goal 0 (prepared.barriers + 1) (noteAnswer (shownNames read) none) [] { prepared with
        warnings := prepared.warnings ++ findings.map (LoopWarning.ofDiagnostic read.names)
        barriers := prepared.barriers + 1 })) :
    Responded (fault.elim (.ok found) .error) (query fuel text machine) := by
  cases fault with
  | none =>
    obtain ⟨last, solved, _⟩ := ends
    refine ⟨{ last with bindings := last.bindings.undoTo machine.bindings.mark }, ?_⟩
    simp [query, answers, Run.restoring, Run.supplied, reads, Bind.bind, EStateM.bind, prepares, Run.report, modify,
      modifyGet, MonadStateOf.modifyGet, EStateM.modifyGet, Run.newBarrier, solved, Pure.pure, EStateM.pure]
  | some error =>
    obtain ⟨last, solved⟩ := ends
    refine ⟨{ last with bindings := last.bindings.undoTo machine.bindings.mark }, ?_⟩
    simp [query, answers, Run.restoring, Run.supplied, reads, Bind.bind, EStateM.bind, prepares, Run.report, modify,
      modifyGet, MonadStateOf.modifyGet, EStateM.modifyGet, Run.newBarrier, solved]

namespace Asks

variable {text : String} {read : ReadTerm} {count : Nat} {known : List (Nat × Term)} {goal : Term}
  (asks : Asks text read count known goal)
include asks

theorem determines : Determines known := by
  obtain ⟨goals, assigns, _⟩ := asks.goals
  refine ⟨asks.distinct, fun entry member => ?_⟩
  obtain ⟨goal, _, assigns⟩ := (exists_of_assigns assigns).2 entry member
  exact assigns.ground

theorem below : goal.Below count := by
  obtain ⟨goals, _, shape⟩ := asks.goals
  intro id occurs
  apply (readTerm_below asks.reads).1
  rw [shape, Term.occurrences_joinGoals]
  simp [occurs]

theorem known_below : ∀ entry ∈ known, entry.1 < count := by
  obtain ⟨goals, assigns, shape⟩ := asks.goals
  intro entry member
  obtain ⟨goal, inside, assigns⟩ := (exists_of_assigns assigns).2 entry member
  apply (readTerm_below asks.reads).1
  rw [shape, Term.occurrences_joinGoals, List.flatMap_append]
  exact List.mem_append_left _ (List.mem_flatMap.mpr ⟨goal, inside, assigns.mem_occurrences⟩)

/-- What is known when the goal is reached depends on the variables of the query only. -/
theorem asked_congr {outer value value' : Nat → Term} (same : ∀ id < count, value id = value' id)
    (asked : Asked count known outer value) : Asked count known outer value' := by
  refine ⟨fun id inside => ?_, fun entry member => ?_⟩
  · rw [← same id inside, asked.1 id inside]
  · rw [← same entry.1 (asks.known_below entry member), asked.2 entry member]

variable {machine : Machine} {fault : Option RunError} {outcomes : List (List (Nat × Term))}

/-- A query has the answers that its goal presents when the values are known. -/
theorem responds (idle : machine.bindings = .empty) (determined : ∀ known' ∈ outcomes, Determines known')
    (presents : ∀ outside, ∃ goal' findings size procedures,
      prepareWith outside goal { machine with bindings := Bindings.empty.reserve count } =
        .ok (goal', findings) { machine with
          bindings := (Bindings.empty.reserve count).reserve size
          procedures := procedures } ∧
      goal' ≠ .truth ∧
      ∀ after : Bindings, after.Scope count (List.range ((Bindings.empty.reserve count).reserve size).size) id
          (Asked count known) →
        ∃ final, Steady final ∧
          PresentsFrom (Given machine.settings machine.program procedures) final final (solving (List Answer) goal' 0)
            after (outcomes.map fun known' after => after.Tells count (Known known')) fault) :
    machine.Responds text (fault.elim (.ok (outcomes.map (valuedAnswer (shownNames read)))) .error) := by
  obtain ⟨goals, assigns, shape⟩ := asks.goals
  have plain : ∀ goal ∈ goals, goal ≠ .truth ∧ Loopless goal := by
    intro goal member
    obtain ⟨entry, assigns⟩ := (exists_of_assigns assigns).1 goal member
    exact ⟨assigns.ne_truth, assigns.loopless⟩
  obtain ⟨outside, prepares⟩ := exists_prepareGoal_joinGoals (fun goal member => (plain goal member).2) goal
  obtain ⟨goal', findings, size, procedures, prepared, other, presents⟩ := presents outside
  let store := (Bindings.empty.reserve count).reserve size
  have blank : store.Blank := (blank_empty.reserve count).reserve size
  have formed : store.WellFormed := (WellFormed.empty.reserve count).reserve size
  have around : count ≤ store.size := by simp [store]
  -- The values are given, and then the goal is reached.
  have belowRead := readTerm_below asks.reads
  have inside : ∀ goal ∈ goals, ∀ id ∈ goal.occurrences, id ∈ List.range store.size := by
    intro goal member id occurs
    have below : id < count := by
      apply belowRead.1
      rw [shape, Term.occurrences_joinGoals, List.flatMap_append]
      exact List.mem_append_left _ (List.mem_flatMap.mpr ⟨goal, member, occurs⟩)
    exact List.mem_range.mpr (Nat.lt_of_lt_of_le below around)
  obtain ⟨value, holds, _⟩ := asks.determines.exists_known Term.var
  have steady' := steady_given machine.settings machine.program procedures
  have begun : (fun outer value : Nat → Term => ∀ id < count, value id = outer id) value value := fun _ _ => rfl
  obtain ⟨after, runs, scope⟩ :=
    exists_runs_assigns steady' assigns (blank.scope formed around) inside begun holds (List Answer) 0
  obtain ⟨final, steady, presents⟩ := presents after scope
  have whole := runs.presents steady other presents
  have joined : Term.conjunction (goals ++ [goal']) = .joinGoals (goals ++ [goal']) := by
    rw [Term.conjunction, List.filter_eq_self.mpr]
    intro each member
    rcases List.mem_append.mp member with early | last
    · simpa using (plain each early).1
    · rw [List.mem_singleton.mp last]
      simpa using other
  rw [joined] at whole
  obtain ⟨enough, whole⟩ := whole
  have names : ∀ entry ∈ shownNames read, entry.2 < count := fun entry member =>
    belowRead.2 entry (List.mem_of_mem_filter member)
  have takes : List.Forall₂ ((noteAnswer (shownNames read) none).Takes final final)
      (outcomes.map fun known' after => after.Tells count (Known known'))
      (outcomes.map fun known' acc => .ok (valuedAnswer (shownNames read) known' :: acc)) := by
    rw [List.forall₂_map_left_iff, List.forall₂_map_right_iff, List.forall₂_same]
    exact fun known' member => takes_noteAnswer (determined known' member) names final
  refine ⟨enough, fun fuel more => ?_⟩
  have begins : readTerm text machine.bindings.size = .ok read count := by
    rw [idle]
    exact asks.reads
  have prepared' := prepares _ _ _ prepared
  rw [← shape, ← idle] at prepared'
  apply responded_of_concludes begins prepared'
  have ends := whole fuel more (machine.barriers + 1) { machine with
      bindings := store
      procedures := procedures
      warnings := machine.warnings ++ findings.map (LoopWarning.ofDiagnostic read.names)
      barriers := machine.barriers + 1 } ⟨rfl, rfl, rfl⟩ rfl _ _ takes []
  rw [collectAll_valuedAnswer, List.append_nil] at ends
  rw [idle]
  exact ends

/-- A query for a loop that shares nothing has the answers that its rounds present, in whichever way these are made. -/
theorem responds_loop {specs body : Term} (shape : goal = .binary "do" specs body) {spec : LoopSpec}
    (parsed : LoopSpec.ofTerm specs = .ok spec) (closed : spec.Closed body) {threads : Threads} {after : Nat}
    (accepted : spec.threads count = .ok threads after) (idle : machine.bindings = .empty)
    (reachable : machine.procedures.Reachable)
    (free : ∀ number arity, machine.program.clausesFor (Procedures.nameOf number) arity = [])
    (determined : ∀ known' ∈ outcomes, Determines known')
    (presents : ∀ (way : LoopWay) (procedures : Procedures) (number : Nat → Nat) (names : List Nat) (begun : Bindings),
      way.Ready (Given machine.settings machine.program procedures) threads body →
      begun.Scope count names number (Asked count known) →
      (∀ term ∈ threads.prelude ++ threads.initial, ∀ id ∈ term.occurrences, id ∈ names) →
      ∃ between, Runs (Given machine.settings machine.program procedures) (List Answer) 0
          (threads.prelude.map (Term.rename number)) begun between ∧
        way.Presents (Given machine.settings machine.program procedures) (List Answer) threads body
          (threads.initial.map (Term.rename number)) 0 between
          (outcomes.map fun known' after => after.Tells count (Known known')) fault) :
    machine.Responds text (fault.elim (.ok (outcomes.map (valuedAnswer (shownNames read)))) .error) := by
  subst shape
  refine asks.responds idle determined fun outside => ?_
  have below := asks.below
  have size : (Bindings.empty.reserve count).size = count := by simp
  obtain ⟨goal', findings, reserved, procedures, prepared, belowGoal, evolved, stands⟩ := closed.exists_prepareWith parsed
    { machine with bindings := Bindings.empty.reserve count } reachable.evolved (by rwa [size]) (by rwa [size]) outside
  have same : goal'.rename id = goal' := Term.rename_eq_self fun _ _ => rfl
  have belowSpec : ∀ id ∈ spec.occurrences ++ body.occurrences, id < count := by
    intro id member
    apply below
    rcases List.mem_append.mp member with own | inner
    · simp [Term.binary, LoopSpec.mem_occurrences_of_ofTerm parsed own]
    · simp [Term.binary, inner]
  refine ⟨goal', findings, reserved, procedures, prepared, stands.ne_truth, fun after scope => ?_⟩
  have inside : ∀ id ∈ goal'.occurrences, id ∈ List.range ((Bindings.empty.reserve count).reserve reserved).size :=
    fun id occurs => List.mem_range.mpr (belowGoal id occurs)
  obtain ⟨way, procedures', number, names, begun, ready, scope', start, reached⟩ := stands.exists_way closed accepted
    belowSpec evolved.sound free scope (fun _ _ _ same => asks.asked_congr same) inside fun _ _ _ _ same => same
  obtain ⟨between, runs, rounds⟩ := presents way procedures' number names begun ready scope' start
  have whole := reached (List Answer) 0 between _ fault runs rounds
  rw [same] at whole
  exact ⟨_, steady_given machine.settings machine.program procedures', whole⟩

end Asks

end HornLoops
