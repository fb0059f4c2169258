import HornLoops.Loop.Procedures
import HornLoops.Proofs.Loop.Threads
import HornLoops.Proofs.Term.Renaming

/-!
# Renaming loops

Nothing in a loop depends on the numbers of its variables. Iterators are read from renamed terms as renamed iterators,
and the threads of renamed iterators are the renamed threads, where the variables that are taken on the way
correspond to each other in order. Threads therefore mention only variables of the iterators and variables
that were taken.
-/

namespace HornLoops

/-! ## Conjunctions -/

namespace Term

theorem rename_eq_truth_iff {number : Nat → Nat} {term : Term} :
    term.rename number = truth ↔ term = truth := by
  cases term <;> simp [truth]

theorem joinGoals_append (goal : Term) (goals : List Term) (last : Term) :
    joinGoals (goal :: goals ++ [last]) = both goal (joinGoals (goals ++ [last])) := by
  cases goals <;> rfl

theorem rename_joinGoals (number : Nat → Nat) (goals : List Term) :
    (joinGoals goals).rename number = joinGoals (goals.map (rename number)) := by
  induction goals with
  | nil => rfl
  | cons goal goals ih =>
    cases goals with
    | nil => rfl
    | cons next goals =>
      rw [joinGoals, both, binary, rename_compound, List.map_singleton, ih]
      rfl
      exact List.cons_ne_nil _ _

/-- A goal other than `true` stays at the end of a conjunction. -/
theorem conjunction_append (goals : List Term) {last : Term} (other : last ≠ truth) :
    conjunction (goals ++ [last]) = joinGoals (goals.filter (fun goal => goal ≠ truth) ++ [last]) := by
  rw [conjunction, List.filter_append, List.filter_cons_of_pos (by simpa using other), List.filter_nil]

/-- What holds of the goals, of `true` and of goals that are joined holds of a conjunction. -/
theorem conjunction_induction {holds : Term → Prop} (trivial : holds truth)
    (joined : ∀ left right, holds left → holds right → holds (both left right)) {goals : List Term}
    (each : ∀ goal ∈ goals, holds goal) : holds (conjunction goals) := by
  have kept : ∀ goal ∈ goals.filter (fun goal => goal ≠ truth), holds goal :=
    fun goal member => each goal (List.mem_filter.mp member).1
  rw [conjunction]
  generalize goals.filter (fun goal => goal ≠ truth) = goals at kept
  induction goals with
  | nil => exact trivial
  | cons goal rest ih =>
    obtain ⟨first, others⟩ := List.forall_mem_cons.mp kept
    cases rest with
    | nil => exact first
    | cons next rest => exact joined _ _ first (ih others)

/-- Renaming a conjunction renames its goals. -/
theorem rename_conjunction (number : Nat → Nat) (goals : List Term) :
    (conjunction goals).rename number = conjunction (goals.map (rename number)) := by
  have kept : (goals.map (rename number)).filter (fun goal => goal ≠ truth) =
      (goals.filter fun goal => goal ≠ truth).map (rename number) := by
    rw [List.filter_map]
    congr 1
    apply List.filter_congr
    intro goal _
    simp [rename_eq_truth_iff]
  rw [conjunction, conjunction, kept, rename_joinGoals]

theorem occurrences_joinGoals (goals : List Term) : (joinGoals goals).occurrences = goals.flatMap occurrences := by
  induction goals with
  | nil => rfl
  | cons goal goals ih =>
    cases goals with
    | nil => simp [joinGoals]
    | cons next goals => simp [joinGoals, both, binary, ih]

/-- The variables of a conjunction are those of its goals. -/
theorem occurrences_conjunction (goals : List Term) :
    (conjunction goals).occurrences = goals.flatMap occurrences := by
  rw [conjunction, occurrences_joinGoals]
  induction goals with
  | nil => rfl
  | cons goal goals ih =>
    by_cases trivial : goal = truth
    · rw [List.filter_cons_of_neg (by simp [trivial]), ih, List.flatMap_cons, trivial]
      rfl
    · rw [List.filter_cons_of_pos (by simp [trivial]), List.flatMap_cons, ih, List.flatMap_cons]

@[simp] theorem nameArity?_rename (number : Nat → Nat) (term : Term) :
    (term.rename number).nameArity? = term.nameArity? := by
  cases term <;> simp [nameArity?]

@[simp] theorem args_rename (number : Nat → Nat) (term : Term) :
    (term.rename number).args = term.args.map (rename number) := by
  cases term <;> simp [args]

/-- Whether a goal is not itself a conjunction or `true`. -/
def IsConjunct (goal : Term) : Prop := goal ≠ truth ∧ goal.conjuncts = [goal]

/-- The goals of a conjunction are found again. -/
theorem conjuncts_conjunction {goals : List Term} (nonempty : goals ≠ [])
    (single : ∀ goal ∈ goals, goal.IsConjunct) : (conjunction goals).conjuncts = goals := by
  have kept : goals.filter (fun goal => goal ≠ truth) = goals := by
    apply List.filter_eq_self.mpr
    intro goal member
    simpa using (single goal member).1
  rw [conjunction, kept]
  clear kept
  induction goals with
  | nil => exact absurd rfl nonempty
  | cons goal goals ih =>
    cases goals with
    | nil => exact (single goal (by simp)).2
    | cons next goals =>
      have rest := ih (List.cons_ne_nil _ _) fun goal member => single goal (List.mem_cons_of_mem _ member)
      simp only [joinGoals, both, binary, conjuncts, if_true]
      rw [rest]

theorem mapM_map_var (ids : List Nat) : (ids.map var).mapM var? = some ids := by
  induction ids with
  | nil => rfl
  | cons head tail ih => simp [var?, ih]

/-- Terms of which each is a variable are these variables. -/
theorem eq_map_of_mapM {terms : List Term} {ids : List Nat} (found : terms.mapM var? = some ids) :
    terms = ids.map .var := by
  induction terms generalizing ids with
  | nil => simpa [eq_comm] using found
  | cons first terms ih =>
    cases first with
    | var id =>
      simp only [List.mapM_cons, var?, Option.pure_def, Option.bind_eq_bind, Option.bind_some,
        Option.bind_eq_some_iff, Option.some.injEq] at found
      obtain ⟨rest, found, rfl⟩ := found
      rw [List.map_cons, ih found]
    | _ => simp [var?] at found

end Term

/-! ## Iterators and specifications -/

namespace LoopIterator

/-- Renumbers the variables of an iterator. -/
def rename (number : Nat → Nat) : LoopIterator → LoopIterator
  | .forEach element list => .forEach (element.rename number) (list.rename number)
  | .forEachArg element structured index =>
    .forEachArg (element.rename number) (structured.rename number) (index.map (Term.rename number))
  | .range index first last step =>
    .range (index.rename number) (first.rename number) (last.rename number) (step.rename number)
  | .count index first max => .count (index.rename number) (first.rename number) (max.rename number)
  | .fromTo first current next last =>
    .fromTo (first.rename number) (current.rename number) (next.rename number) (last.rename number)
  | .param vars => .param (vars.map number)

theorem toTerm_rename (number : Nat → Nat) (iterator : LoopIterator) :
    (iterator.rename number).toTerm = iterator.toTerm.rename number := by
  cases iterator with
  | forEachArg element structured index => cases index <;> simp [rename, toTerm]
  | param vars => simp [rename, toTerm, Function.comp_def]
  | _ => simp [rename, toTerm]

/-- Reading gives back what was written. -/
theorem ofTerm_toTerm (iterator : LoopIterator) : ofTerm iterator.toTerm = .ok iterator := by
  cases iterator with
  | forEachArg element structured index =>
    cases index <;> simp [toTerm, ofTerm, Term.build, Term.nameArity?, Term.args]
  | param ids =>
    cases ids with
    | nil => rfl
    | cons head tail =>
      have all := Term.mapM_map_var (head :: tail)
      rw [List.map_cons] at all
      simp only [toTerm, ofTerm, Term.build, Term.nameArity?, Term.args, List.map_cons, all]
  | _ => simp [toTerm, ofTerm, Term.build, Term.nameArity?, Term.args]

/-- A renamed term is read as the renamed iterator. -/
theorem ofTerm_rename (number : Nat → Nat) {term : Term} {iterator : LoopIterator}
    (read : ofTerm term = .ok iterator) : ofTerm (term.rename number) = .ok (iterator.rename number) := by
  have vars {args : List Term} {ids : List Nat} (found : args.mapM Term.var? = some ids) :
      (args.map (Term.rename number)).mapM Term.var? = some (ids.map number) := by
    rw [Term.eq_map_of_mapM found, ← Term.mapM_map_var (ids.map number), List.map_map, List.map_map]
    rfl
  unfold ofTerm at read ⊢
  rw [Term.nameArity?_rename, Term.args_rename]
  split at read
  case h_8 named =>
    match found : term.args.mapM Term.var? with
    | none => simp [found] at read
    | some ids =>
      simp only [found, Except.ok.injEq] at read
      simp [named, vars found, ← read, rename]
  case h_9 => contradiction
  all_goals
    rename_i named arguments
    simp only [Except.ok.injEq] at read
    simp [named, arguments, ← read, rename]

theorem isConjunct_toTerm (iterator : LoopIterator) : iterator.toTerm.IsConjunct := by
  cases iterator with
  | forEachArg element structured index =>
    cases index <;>
      simp [toTerm, Term.build, Term.IsConjunct, Term.truth, Term.conjuncts]
  | param vars =>
    rcases vars with _ | ⟨_, _ | ⟨_, _ | ⟨_, _⟩⟩⟩
    · exact ⟨by decide, rfl⟩
    · exact ⟨by simp [toTerm, Term.build, Term.truth], rfl⟩
    · exact ⟨by simp [toTerm, Term.build, Term.truth], by simp [toTerm, Term.build, Term.conjuncts]⟩
    · exact ⟨by simp [toTerm, Term.build, Term.truth], rfl⟩
  | _ => simp [toTerm, Term.build, Term.IsConjunct, Term.truth, Term.conjuncts]

/-- The variables of an iterator. -/
def occurrences (iterator : LoopIterator) : List Nat := iterator.toTerm.occurrences

end LoopIterator

namespace LoopSpec

/-- Renumbers the variables of a specification. -/
def rename (number : Nat → Nat) (spec : LoopSpec) : LoopSpec :=
  ⟨spec.first.rename number, spec.rest.map (LoopIterator.rename number)⟩

@[simp] theorem iterators_rename (number : Nat → Nat) (spec : LoopSpec) :
    (spec.rename number).iterators = spec.iterators.map (LoopIterator.rename number) := rfl

theorem toTerm_rename (number : Nat → Nat) (spec : LoopSpec) :
    (spec.rename number).toTerm = spec.toTerm.rename number := by
  rw [toTerm, toTerm, Term.rename_conjunction, iterators_rename, List.map_map, List.map_map]
  congr 1
  exact List.map_congr_left fun iterator _ => iterator.toTerm_rename number

/-- Reading gives back what was written. -/
theorem ofTerm_toTerm (spec : LoopSpec) : ofTerm spec.toTerm = .ok spec := by
  have found : spec.toTerm.conjuncts = spec.iterators.map LoopIterator.toTerm := by
    apply Term.conjuncts_conjunction
    · simp [iterators]
    · intro goal member
      obtain ⟨iterator, _, rfl⟩ := List.mem_map.mp member
      exact iterator.isConjunct_toTerm
  have all : ∀ iterators : List LoopIterator,
      (iterators.map LoopIterator.toTerm).mapM LoopIterator.ofTerm = Except.ok iterators := by
    intro iterators
    induction iterators with
    | nil => rfl
    | cons head tail ih =>
      rw [List.map_cons, List.mapM_cons, LoopIterator.ofTerm_toTerm, ih]
      rfl
  rw [ofTerm, found, all]
  rfl

/-- Specifications that are written alike are equal. -/
theorem toTerm_injective {left right : LoopSpec} (same : left.toTerm = right.toTerm) : left = right := by
  have read := ofTerm_toTerm left
  rw [same, ofTerm_toTerm, Except.ok.injEq] at read
  exact read.symm

end LoopSpec

/-! ## Arithmetic -/

/-- The value of a renamed expression is that of the expression for renamed values. -/
theorem Arithmetic.evalWith_rename (value : Nat → Value) (number : Nat → Nat) (term : Term) :
    evalWith value (term.rename number) = evalWith (fun id => value (number id)) term := evalWith_subst _ _ _

namespace Term

@[simp] theorem constant?_rename (number : Nat → Nat) (term : Term) :
    (term.rename number).constant? = term.constant? := by
  rw [constant?, constant?, Arithmetic.evalWith_rename]

@[simp] theorem isGround_rename (number : Nat → Nat) (term : Term) :
    (term.rename number).isGround = term.isGround := by
  simp [isGround]

end Term

@[simp] theorem Goal.rename_evaluate (number : Nat → Nat) (target expression : Term) :
    (evaluate target expression).rename number =
      evaluate (target.rename number) (expression.rename number) := by
  simp [evaluate, Term.binary]

@[simp] theorem Goal.subst_plus (replace : Nat → Term) (term : Term) (constant : Int64) :
    (plus term constant).subst replace = plus (term.subst replace) constant := by
  unfold plus
  split
  · split <;> simp [Term.binary]
  · simp [Term.binary]

@[simp] theorem Goal.rename_plus (number : Nat → Nat) (term : Term) (constant : Int64) :
    (plus term constant).rename number = plus (term.rename number) constant :=
  subst_plus _ term constant

@[simp] theorem Goal.occurrences_plus (term : Term) (constant : Int64) :
    (plus term constant).occurrences = term.occurrences := by
  unfold plus
  split
  · split <;> simp [Term.binary]
  · simp [Term.binary]

/-! ## Threads -/

/-- The second computation does what the first one does up to renaming: if the first one succeeds and the variables it
takes are renamed to those that the second one would take, then the second one succeeds with the renamed value. -/
def Shifting (number : Nat → Nat) {ε α β : Type} (renamed : α → β) (left : Supplied ε α)
    (right : Supplied ε β) : Prop :=
  ∀ next next' value after, left next = .ok value after →
    ∃ taken, after = next + taken ∧
      ((∀ offset < taken, number (next + offset) = next' + offset) →
        right next' = .ok (renamed value) (next' + taken))

namespace Shifting

variable {number : Nat → Nat} {ε α β γ δ : Type} {renamed : α → β} {renamed' : γ → δ}

theorem pure {left : α} {right : β} (values : renamed left = right) :
    Shifting (ε := ε) number renamed (Pure.pure left) (Pure.pure right) := by
  rintro next next' value after ⟨rfl, rfl⟩
  exact ⟨0, rfl, fun _ => by rw [values]; rfl⟩

theorem bind {left : Supplied ε α} {right : Supplied ε β} {left' : α → Supplied ε γ}
    {right' : β → Supplied ε δ} (first : Shifting number renamed left right)
    (rest : ∀ value, Shifting number renamed' (left' value) (right' (renamed value))) :
    Shifting number renamed' (left >>= left') (right >>= right') := by
  intro next next' result after success
  obtain ⟨value, between, begun, success⟩ := exists_of_bind success
  obtain ⟨taken, rfl, first'⟩ := first next next' value between begun
  obtain ⟨taken', rfl, rest'⟩ := rest value (next + taken) (next' + taken) result after success
  refine ⟨taken + taken', by omega, ?_⟩
  intro shifted
  rw [bind_of_ok (first' fun offset few => shifted offset (by omega)), rest' fun offset few => ?_, Nat.add_assoc]
  rw [Nat.add_assoc, shifted (taken + offset) (by omega), Nat.add_assoc]

end Shifting

namespace Threads

/-- Renumbers the variables of threads. -/
def rename (number : Nat → Nat) (threads : Threads) : Threads where
  initial := threads.initial.map (Term.rename number)
  terminal := threads.terminal.map (Term.rename number)
  prelude := threads.prelude.map (Term.rename number)
  head := threads.head.map (Term.rename number)
  steps := threads.steps.map (Term.rename number)
  call := threads.call.map (Term.rename number)

theorem rename_append (number : Nat → Nat) (left right : Threads) :
    (left.append right).rename number = (left.rename number).append (right.rename number) := by
  simp [rename, append]

end Threads

namespace LoopIterator

variable (number : Nat → Nat)

theorem rename_closedCounter (now later : Term) (start stop step : Int64) :
    (closedCounter now later start stop step).rename number =
      closedCounter (now.rename number) (later.rename number) start stop step := by
  simp [Threads.rename, closedCounter]

/-- Three variables are taken for a counter whose last value is computed. -/
theorem rename_openCounter {next next' : Nat} (shifted : ∀ offset < 3, number (next + offset) = next' + offset)
    (now later start : Term) (step : Int64) (prelude : List Term) (limit : Term) :
    (openCounter now later start step prelude limit next).rename number =
      openCounter (now.rename number) (later.rename number) (start.rename number) step
        (prelude.map (Term.rename number)) (limit.rename number) next' := by
  have first : number next = next' := shifted 0 (by omega)
  simp [Threads.rename, openCounter, first, shifted]

/-- Six variables are taken for arguments. -/
theorem rename_argumentThreads {next next' : Nat} (shifted : ∀ offset < 6, number (next + offset) = next' + offset)
    (element structured : Term) (position : Option Term) (limit : Term) (prelude : List Term) :
    (argumentThreads element structured position limit prelude next).rename number =
      argumentThreads (element.rename number) (structured.rename number) (position.map (Term.rename number))
        (limit.rename number) (prelude.map (Term.rename number)) next' := by
  have first : number next = next' := shifted 0 (by omega)
  cases position <;> simp [Threads.rename, argumentThreads, Term.binary, first, shifted]

/-- A renamed iterator has renamed threads if the variables that are taken for them correspond to each other. -/
theorem Draws.rename {next after : Nat} {iterator : LoopIterator} {threads : Threads}
    (draws : Draws next iterator threads after) (next' : Nat) :
    ∃ taken, after = next + taken ∧ ((∀ offset < taken, number (next + offset) = next' + offset) →
      Draws next' (iterator.rename number) (threads.rename number) (next' + taken)) := by
  have later {taken : Nat} (shifted : ∀ offset < taken, number (next + offset) = next' + offset) (offset few : Nat)
      (fits : offset + few ≤ taken) : ∀ rest < few, number (next + offset + rest) = next' + offset + rest :=
    fun rest inside => by rw [Nat.add_assoc, shifted _ (by omega), Nat.add_assoc]
  have first {taken : Nat} (shifted : ∀ offset < taken, number (next + offset) = next' + offset) (some : 0 < taken) :
      number next = next' := shifted 0 some
  cases draws with
  | elements element list =>
    refine ⟨1, rfl, fun shifted => ?_⟩
    have draws : Draws next' _ _ _ := .elements (element.rename number) (list.rename number)
    simpa [LoopIterator.rename, Threads.rename, Term.nil, Term.cons, Term.binary, first shifted] using draws
  | @arguments element structured position known =>
    refine ⟨6, rfl, fun shifted => ?_⟩
    have known' : (structured.rename number).isVar = false := by
      cases structured with
      | compound name first rest =>
        rw [Term.rename_compound]
        rfl
      | _ => exact known
    have draws : Draws next' _ _ _ := .arguments (element.rename number) (position.map (Term.rename number)) known'
    simpa [LoopIterator.rename, rename_argumentThreads number shifted] using draws
  | unknownArguments element id position =>
    refine ⟨9, rfl, fun shifted => ?_⟩
    have draws : Draws next' _ _ _ :=
      .unknownArguments (element.rename number) (number id) (position.map (Term.rename number))
    simpa [LoopIterator.rename, rename_argumentThreads number (later shifted 3 6 (by omega)), first shifted,
      shifted] using draws
  | range index begins ends steps moves stops =>
    refine ⟨1, rfl, fun shifted => ?_⟩
    rw [rename_closedCounter, Term.rename_var, first shifted (by omega)]
    refine .range (index.rename number) ?_ ?_ ?_ moves stops <;> simpa
  | @rangeTo index initial last step start value function begins ends steps unit =>
    refine ⟨4, rfl, fun shifted => ?_⟩
    have draws : Draws next' (.range _ (initial.rename number) (last.rename number) (step.rename number)) _ _ :=
      .rangeTo (index.rename number) (by simpa) (by simpa) (by simpa) unit
    simpa [LoopIterator.rename, rename_openCounter number (later shifted 1 3 (by omega)), Term.binary, first shifted,
      shifted] using draws
  | @rangeFrom index initial last step value function begins steps unit =>
    refine ⟨5, rfl, fun shifted => ?_⟩
    have draws : Draws next' (.range _ (initial.rename number) (last.rename number) (step.rename number)) _ _ :=
      .rangeFrom (index.rename number) (by simpa) (by simpa) unit
    simpa [LoopIterator.rename, rename_openCounter number (later shifted 2 3 (by omega)), Term.binary, first shifted,
      shifted] using draws
  | count index begins before ends =>
    refine ⟨1, rfl, fun shifted => ?_⟩
    rw [rename_closedCounter, Term.rename_var, first shifted (by omega)]
    exact .count (index.rename number) (by simpa) before (by simpa)
  | @countTo index initial max value start begins before ends =>
    refine ⟨4, rfl, fun shifted => ?_⟩
    have draws : Draws next' (.count _ (initial.rename number) (max.rename number)) _ _ :=
      .countTo (index.rename number) (by simpa) before (by simpa)
    simpa [LoopIterator.rename, rename_openCounter number (later shifted 1 3 (by omega)), openLimit, Term.binary,
      Term.unary, first shifted, shifted] using draws
  | @countFrom index initial max begins =>
    refine ⟨5, rfl, fun shifted => ?_⟩
    have draws : Draws next' (.count _ (initial.rename number) (max.rename number)) _ _ :=
      .countFrom (index.rename number) (by simpa)
    rw [Term.constant?_rename] at draws
    cases ends : max.constant? <;>
      simpa [LoopIterator.rename, rename_openCounter number (later shifted 2 3 (by omega)), openLimit, Term.binary,
        Term.unary, first shifted, shifted, ends] using draws
  | value initial current following ground =>
    exact ⟨0, rfl, fun _ => .value _ _ _ (by simpa)⟩
  | @openValue initial current following last ground =>
    refine ⟨2, rfl, fun shifted => ?_⟩
    have draws : Draws next' (.fromTo _ _ _ (last.rename number)) _ _ :=
      .openValue (initial.rename number) (current.rename number) (following.rename number) (by simpa)
    simpa [LoopIterator.rename, Threads.rename, first shifted, shifted] using draws
  | params vars =>
    refine ⟨0, rfl, fun _ => ?_⟩
    have draws : Draws next' _ _ _ := .params (vars.map number)
    simpa [LoopIterator.rename, Threads.rename, threadParams, Function.comp_def] using draws

/-- The threads of a renamed iterator are the renamed threads. -/
theorem shifting_threads (iterator : LoopIterator) :
    Shifting number (Threads.rename number) iterator.threads (iterator.rename number).threads := by
  intro next next' threads after threaded
  obtain ⟨taken, same, draws⟩ := (Draws.of_threads threaded).rename number next'
  exact ⟨taken, same, fun shifted => (draws shifted).threads_eq⟩

end LoopIterator

/-- The threads of renamed iterators are the renamed threads. -/
theorem Threads.shifting_ofIterators (number : Nat → Nat) (iterators : List LoopIterator) :
    Shifting number (Threads.rename number) (ofIterators iterators)
      (ofIterators (iterators.map (LoopIterator.rename number))) := by
  induction iterators with
  | nil => exact .pure rfl
  | cons iterator iterators ih =>
    exact (iterator.shifting_threads number).bind fun first => ih.bind fun rest =>
      .pure (rename_append number first rest)

/-- The threads of a renamed specification are the renamed threads. -/
theorem LoopSpec.shifting_threads (number : Nat → Nat) (spec : LoopSpec) :
    Shifting number (Threads.rename number) spec.threads (spec.rename number).threads :=
  Threads.shifting_ofIterators number spec.iterators

/-! ## Variables of threads -/

namespace LoopIterator

theorem rename_eq_self {number : Nat → Nat} {iterator : LoopIterator}
    (kept : ∀ id ∈ iterator.occurrences, number id = id) : iterator.rename number = iterator := by
  have same : (iterator.rename number).toTerm = iterator.toTerm := by
    rw [toTerm_rename, Term.rename_eq_self kept]
  have read := ofTerm_toTerm (iterator.rename number)
  rw [same, ofTerm_toTerm, Except.ok.injEq] at read
  exact read.symm

end LoopIterator

namespace LoopSpec

/-- The variables of a specification. -/
def occurrences (spec : LoopSpec) : List Nat := spec.iterators.flatMap LoopIterator.occurrences

theorem occurrences_toTerm (spec : LoopSpec) : spec.toTerm.occurrences = spec.occurrences := by
  rw [toTerm, Term.occurrences_conjunction, List.flatMap_map]
  rfl

theorem occurrences_rename (number : Nat → Nat) (spec : LoopSpec) :
    (spec.rename number).occurrences = spec.occurrences.map number := by
  rw [← occurrences_toTerm, toTerm_rename, Term.occurrences_rename, occurrences_toTerm]

theorem rename_eq_self {number : Nat → Nat} {spec : LoopSpec}
    (kept : ∀ id ∈ spec.occurrences, number id = id) : spec.rename number = spec := by
  have same : spec.iterators.map (LoopIterator.rename number) = spec.iterators := by
    conv_rhs => rw [← List.map_id spec.iterators]
    apply List.map_congr_left
    intro iterator member
    apply LoopIterator.rename_eq_self
    intro id occurs
    exact kept id (List.mem_flatMap.mpr ⟨iterator, member, occurs⟩)
  cases spec
  simpa [rename, iterators] using same

end LoopSpec

namespace Threads

/-- The variables of threads. -/
def occurrences (threads : Threads) : List Nat :=
  Term.occurrencesAll (threads.initial ++ threads.terminal ++ threads.prelude ++ threads.head ++
    threads.steps ++ threads.call)

/-- Renaming that changes nothing changes none of the variables. -/
theorem eq_of_rename_eq_self {number : Nat → Nat} {threads : Threads}
    (same : threads.rename number = threads) {id : Nat} (occurs : id ∈ threads.occurrences) :
    number id = id := by
  have lists : threads.occurrences.map number = threads.occurrences := by
    conv_rhs => rw [← same]
    rw [occurrences, ← Term.occurrencesAll_rename]
    simp [occurrences, rename]
  have members := List.map_eq_map_iff.mp (lists.trans (List.map_id _).symm)
  exact members id occurs

end Threads

variable {term : Term} {iterator : LoopIterator} {next after id : Nat} {threads : Threads} {spec : LoopSpec}

/-- Threads mention only variables of their iterators and variables that were taken for them. -/
theorem LoopSpec.mem_occurrences_of_threads (threaded : spec.threads next = .ok threads after)
    (occurs : id ∈ threads.occurrences) : id ∈ spec.occurrences ∨ (next ≤ id ∧ id < after) := by
  -- A renaming that moves all other variables away keeps the threads.
  let number (id : Nat) : Nat := if id ∈ spec.occurrences ∨ (next ≤ id ∧ id < after) then id else id + 1
  have kept : spec.rename number = spec := rename_eq_self fun id member => by simp [number, member]
  obtain ⟨taken, rfl, shifted⟩ := spec.shifting_threads number next next threads after threaded
  have again := shifted fun offset few => by
    have inside : next + offset < next + taken := by omega
    simp [number, inside]
  rw [kept, threaded] at again
  have same : threads.rename number = threads := by
    injection again with value _
    exact value.symm
  have fixed := Threads.eq_of_rename_eq_self same occurs
  by_contra outside
  simp [number, outside] at fixed

/-! ## Variables of specifications -/

/-- What has a name has the variables of its arguments. -/
theorem Term.occurrences_of_nameArity? {named : String × Nat} (found : term.nameArity? = some named) :
    term.occurrences = term.args.flatMap occurrences := by
  cases term with
  | var id => contradiction
  | int value => contradiction
  | atom name => simp [args]
  | compound name first rest => simp [args]

/-- A conjunction has the variables of its conjuncts. -/
theorem Term.flatMap_conjuncts (term : Term) : term.conjuncts.flatMap occurrences = term.occurrences := by
  fun_induction conjuncts term with
  | case1 left right ih => simp [ih]
  | case2 name left right _ => simp
  | case3 goal _ => simp

theorem LoopIterator.mem_occurrences :
    id ∈ iterator.occurrences ↔
      (∃ term ∈ iterator.localTerms ++ iterator.globalTerms, id ∈ term.occurrences) ∨
        id ∈ iterator.declared := by
  cases iterator with
  | forEachArg element structured index =>
    cases index with
    | none => simp [occurrences, toTerm, localTerms, globalTerms, declared, Term.build]
    | some index =>
      simp [occurrences, toTerm, localTerms, globalTerms, declared, Term.build]
      tauto
  | param vars =>
    cases vars <;> simp [occurrences, toTerm, localTerms, globalTerms, declared, Term.build]
  | fromTo first current next last =>
    simp [occurrences, toTerm, localTerms, globalTerms, declared, Term.build]
    tauto
  | _ => simp [occurrences, toTerm, localTerms, globalTerms, declared, Term.build]

/-- An iterator has the variables of the term it was read from. -/
theorem LoopIterator.occurrences_of_ofTerm (read : ofTerm term = .ok iterator) :
    iterator.occurrences = term.occurrences := by
  unfold ofTerm at read
  split at read
  case h_8 named =>
    match found : term.args.mapM Term.var? with
    | none => simp [found] at read
    | some ids =>
      simp only [found, Except.ok.injEq] at read
      rw [Term.occurrences_of_nameArity? named, Term.eq_map_of_mapM found, ← read]
      simp [occurrences, toTerm]
  case h_9 => contradiction
  all_goals
    rename_i named arguments
    rw [Term.occurrences_of_nameArity? named, arguments, ← Except.ok.inj read]
    simp [occurrences, toTerm]

namespace LoopSpec

theorem occurrences_ofIterators (iterators : List LoopIterator) :
    (ofIterators iterators).occurrences = iterators.flatMap LoopIterator.occurrences := by
  cases iterators with
  | nil => rfl
  | cons first rest => rfl

variable {term body : Term} {spec : LoopSpec} {id : Nat} {terms : List Term} {iterators : List LoopIterator}
  {outside : VarSet}

/-- Where all terms of a sequence are read as iterators, the iterators were read from the terms one by one. -/
theorem forall₂_of_mapM (read : terms.mapM LoopIterator.ofTerm = .ok iterators) :
    List.Forall₂ (fun term iterator => LoopIterator.ofTerm term = .ok iterator) terms iterators := by
  induction terms generalizing iterators with
  | nil =>
    obtain rfl : [] = iterators := Except.ok.inj read
    exact .nil
  | cons term terms ih =>
    rw [List.mapM_cons] at read
    match head : LoopIterator.ofTerm term, tail : terms.mapM LoopIterator.ofTerm with
    | .error error, _ => simp [head, bind, Except.bind] at read
    | .ok first, .error error => simp [head, tail, bind, Except.bind] at read
    | .ok first, .ok rest =>
      obtain rfl : first :: rest = iterators := by
        simpa [head, tail, bind, Except.bind, pure, Except.pure] using read
      exact .cons head (ih tail)

/-- Each iterator was read from one of the terms. -/
theorem exists_term_of_mapM (read : terms.mapM LoopIterator.ofTerm = .ok iterators) {iterator : LoopIterator}
    (member : iterator ∈ iterators) : ∃ term ∈ terms, LoopIterator.ofTerm term = .ok iterator := by
  have pairs := forall₂_of_mapM read
  clear read
  induction pairs with
  | nil => contradiction
  | cons head tail ih =>
    rcases List.mem_cons.mp member with rfl | member
    · exact ⟨_, List.mem_cons_self, head⟩
    · obtain ⟨other, inside, read⟩ := ih member
      exact ⟨other, List.mem_cons_of_mem _ inside, read⟩

/-- A specification has the variables of the term it was read from. -/
theorem occurrences_of_ofTerm (read : ofTerm term = .ok spec) : spec.occurrences = term.occurrences := by
  have all {terms : List Term} {iterators : List LoopIterator}
      (pairs : List.Forall₂ (fun term iterator => LoopIterator.ofTerm term = .ok iterator) terms iterators) :
      iterators.flatMap LoopIterator.occurrences = terms.flatMap Term.occurrences := by
    induction pairs with
    | nil => rfl
    | cons head _ ih => rw [List.flatMap_cons, List.flatMap_cons, LoopIterator.occurrences_of_ofTerm head, ih]
  rw [ofTerm] at read
  match found : term.conjuncts.mapM LoopIterator.ofTerm with
  | .error error => simp [found, Except.map] at read
  | .ok iterators =>
    simp only [found, Except.map, Except.ok.injEq] at read
    rw [← read, occurrences_ofIterators, all (forall₂_of_mapM found), Term.flatMap_conjuncts]

theorem mem_occurrences_of_ofTerm (read : ofTerm term = .ok spec) (occurs : id ∈ spec.occurrences) :
    id ∈ term.occurrences :=
  occurrences_of_ofTerm read ▸ occurs

@[simp] theorem mem_declared : id ∈ spec.declared ↔ ∃ iterator ∈ spec.iterators, id ∈ iterator.declared := by
  simp [declared]

theorem mem_occurrences :
    id ∈ spec.occurrences ↔ id ∈ spec.localVars ∨ id ∈ spec.globalVars ∨ id ∈ spec.declared := by
  simp only [occurrences, List.mem_flatMap, LoopIterator.mem_occurrences, localVars, globalVars, mem_declared,
    Term.mem_varsAll, List.mem_append]
  constructor
  · rintro ⟨iterator, member, ⟨term, inside | inside, occurs⟩ | declares⟩
    · exact .inl ⟨term, ⟨iterator, member, inside⟩, occurs⟩
    · exact .inr (.inl ⟨term, ⟨iterator, member, inside⟩, occurs⟩)
    · exact .inr (.inr ⟨iterator, member, declares⟩)
  · rintro (⟨term, ⟨iterator, member, inside⟩, occurs⟩ | ⟨term, ⟨iterator, member, inside⟩, occurs⟩ |
      ⟨iterator, member, declares⟩)
    · exact ⟨iterator, member, .inl ⟨term, .inl inside, occurs⟩⟩
    · exact ⟨iterator, member, .inl ⟨term, .inr inside, occurs⟩⟩
    · exact ⟨iterator, member, .inr declares⟩

theorem mem_occurrences_of_localVars (member : id ∈ spec.localVars) : id ∈ spec.occurrences :=
  mem_occurrences.mpr (.inl member)

theorem mem_occurrences_of_globalVars (member : id ∈ spec.globalVars) : id ∈ spec.occurrences :=
  mem_occurrences.mpr (.inr (.inl member))

theorem mem_occurrences_of_declared (member : id ∈ spec.declared) : id ∈ spec.occurrences :=
  mem_occurrences.mpr (.inr (.inr member))

theorem mem_shared :
    id ∈ spec.shared body outside ↔
      (id ∈ body.occurrences ∧ id ∉ spec.localVars ∧ (id ∈ outside ∨ id ∈ spec.globalVars)) ∨
        (id ∈ spec.declared ∧ id ∈ outside) := by
  simp only [shared, VarSet.mem_extend, List.mem_filter, Term.mem_vars, Bool.and_eq_true,
    Bool.or_eq_true, decide_eq_true_eq]

/-- Shared variables are variables of the body or declared ones. -/
theorem mem_occurrences_of_shared (member : id ∈ spec.shared body outside) :
    id ∈ spec.occurrences ++ body.occurrences := by
  rcases mem_shared.mp member with ⟨inside, _⟩ | ⟨inside, _⟩
  · exact List.mem_append_right _ inside
  · exact List.mem_append_left _ (mem_occurrences_of_declared inside)

/-- The iterators other than declarations of parameters. -/
def others (spec : LoopSpec) : List LoopIterator := spec.iterators.filter fun iterator => !iterator.isParam

/-- What declarations of parameters do not contribute to is contributed by the other iterators. -/
theorem flatMap_others {α : Type} {part : LoopIterator → List α} (none : ∀ vars, part (.param vars) = [])
    (spec : LoopSpec) : spec.iterators.flatMap part = spec.others.flatMap part := by
  unfold others
  induction spec.iterators with
  | nil => rfl
  | cons iterator iterators ih => cases iterator <;> simp [LoopIterator.isParam, none, ih]

section

variable (spec : LoopSpec) (shared : VarSet)

/-- Parameters are declared before the other iterators. -/
theorem iterators_withParams : (spec.withParams shared).iterators =
    if shared = [] ∧ spec.others ≠ [] then spec.others else .param shared :: spec.others := by
  unfold withParams
  rw [← others]
  cases shared <;> cases spec.others <;> simp [ofIterators, iterators]

@[simp] theorem others_withParams : (spec.withParams shared).others = spec.others := by
  have idle : spec.others.filter (fun iterator => !iterator.isParam) = spec.others := by
    simp [others]
  rw [others, iterators_withParams]
  split
  · exact idle
  · simpa [LoopIterator.isParam] using idle

@[simp] theorem localVars_withParams : (spec.withParams shared).localVars = spec.localVars := by
  unfold localVars
  rw [flatMap_others (fun _ => rfl), flatMap_others (fun _ => rfl) spec, others_withParams]

@[simp] theorem globalVars_withParams : (spec.withParams shared).globalVars = spec.globalVars := by
  unfold globalVars
  rw [flatMap_others (fun _ => rfl), flatMap_others (fun _ => rfl) spec, others_withParams]

/-- Exactly the parameters are declared, in their order. -/
theorem declared_withParams : (spec.withParams shared).declared = VarSet.ofList shared := by
  have none : spec.others.flatMap LoopIterator.declared = [] := by
    rw [List.flatMap_eq_nil_iff]
    intro iterator member
    have other := (List.mem_filter.mp member).2
    cases iterator <;> first | rfl | contradiction
  rw [declared, iterators_withParams]
  split
  · rename_i empty
    rw [none, empty.1]
  · rw [List.flatMap_cons, none, List.append_nil, LoopIterator.declared]

theorem mem_declared_withParams {id : Nat} : id ∈ (spec.withParams shared).declared ↔ id ∈ shared := by
  rw [declared_withParams, VarSet.mem_ofList]

/-- Declaring parameters again replaces them. -/
@[simp] theorem withParams_withParams (again : VarSet) :
    (spec.withParams shared).withParams again = spec.withParams again := by
  have same := others_withParams spec shared
  unfold others at same
  rw [withParams, same]
  rfl

end

/-- **Specifications are represented by terms**: what was read is read again from the term that it is written as. With
an ordered set of variables in place of its parameters a specification declares exactly these in their order, and nothing
else about it changes; the result is represented too, and putting in the same parameters again does nothing. -/
theorem faithful :
    (∀ {term : Term} {spec : LoopSpec}, ofTerm term = .ok spec → ofTerm spec.toTerm = .ok spec) ∧
    ∀ (spec : LoopSpec) {shared : VarSet}, shared.Nodup →
      (spec.withParams shared).declared = shared ∧ (spec.withParams shared).others = spec.others ∧
      (spec.withParams shared).localVars = spec.localVars ∧ (spec.withParams shared).globalVars = spec.globalVars ∧
      ofTerm (spec.withParams shared).toTerm = .ok (spec.withParams shared) ∧
      (spec.withParams shared).withParams shared = spec.withParams shared := by
  refine ⟨fun _ => ofTerm_toTerm _, fun spec shared distinct => ⟨?_, others_withParams spec shared,
    localVars_withParams spec shared, globalVars_withParams spec shared, ofTerm_toTerm _,
    withParams_withParams spec shared shared⟩⟩
  rw [declared_withParams, VarSet.ofList_eq_self distinct]

/-- Parameters in two places give way to one declaration in front, the step of a range is filled in, and without any
parameter a specification of parameters only still declares that there are none. -/
theorem faithful_ranges :
    let range (index : Nat) (step : List Term) : Term := .build "for" ([.var index, .int 1, .int 3] ++ step)
    let term := Term.both (.build "param" [.var 4]) (.both (range 0 []) (.build "param" [.var 5, .var 4]))
    ∃ spec, ofTerm term = .ok spec ∧ ofTerm spec.toTerm = .ok spec ∧ spec.declared = [4, 5] ∧
      (spec.withParams [7, 4]).toTerm = .both (.build "param" [.var 7, .var 4]) (range 0 [.int 1]) ∧
      (spec.withParams [7, 4]).declared = [7, 4] ∧
      (LoopSpec.withParams ⟨.param [4], []⟩ []).toTerm = .build "param" [] ∧
      (LoopSpec.withParams ⟨.param [4], []⟩ []).declared = [] := by
  intro range term
  have read : ofTerm term =
      .ok ⟨.param [4], [.range (.var 0) (.int 1) (.int 3) (.int 1), .param [5, 4]]⟩ := rfl
  exact ⟨_, read, faithful.1 read, by decide, rfl, (faithful.2 _ (by decide)).1, rfl, (faithful.2 _ (by decide)).1⟩

/-- Declaring parameters adds no variables but the parameters. -/
theorem mem_occurrences_of_withParams {shared : VarSet} (occurs : id ∈ (spec.withParams shared).occurrences) :
    id ∈ shared ∨ id ∈ spec.occurrences := by
  rw [mem_occurrences, localVars_withParams, globalVars_withParams, mem_declared_withParams] at occurs
  rcases occurs with new | once | declares
  · exact .inr (mem_occurrences_of_localVars new)
  · exact .inr (mem_occurrences_of_globalVars once)
  · exact .inl declares

end LoopSpec

/-! ## Variants -/

/-- The normal form of a term tells how many variables it has. -/
theorem Term.normalize_eq_of_term_eq {left right : Term}
    (same : left.normalize.term = right.normalize.term) : left.normalize = right.normalize := by
  have width (term : Term) : term.normalize.width = term.normalize.term.vars.length := by
    have injective : InjectiveOn term.vars.idxOf term.occurrences := by
      intro one occurs other _ equal
      exact (List.idxOf_inj (mem_vars.mpr occurs)).mp equal
    rw [normalize, vars_rename injective, List.length_map]
  have widths : left.normalize.width = right.normalize.width := by rw [width, width, same]
  cases leftForm : left.normalize
  cases rightForm : right.normalize
  simp_all

/-- Loops with the same signature are renamings of each other, together with their threads, if the variables that are
taken for the threads do not occur in the loops. -/
theorem exists_number_of_signature_eq {spec' : LoopSpec} {body body' : Term}
    (same : Signature.ofLoop spec.toTerm body = Signature.ofLoop spec'.toTerm body') {next' after' : Nat}
    {threads' : Threads} (threaded : spec.threads next = .ok threads after)
    (threaded' : spec'.threads next' = .ok threads' after')
    (fresh : ∀ id ∈ spec.occurrences ++ body.occurrences, id < next ∨ after ≤ id)
    (fresh' : ∀ id ∈ spec'.occurrences ++ body'.occurrences, id < next' ∨ after' ≤ id) :
    ∃ number, InjectiveOn number (threads.occurrences ++ body.occurrences ++ spec.occurrences) ∧
      spec.rename number = spec' ∧ body.rename number = body' ∧ threads.rename number = threads' := by
  obtain ⟨variant, injective, renamed⟩ :=
    Term.exists_rename_of_normalize_eq (Term.normalize_eq_of_term_eq (congrArg Signature.shape same))
  simp only [Term.binary, Term.rename_compound, Term.compound.injEq, List.map_cons, List.map_nil,
    List.cons.injEq, and_true, true_and, Term.occurrences_compound, List.flatMap_cons, List.flatMap_nil,
    List.append_nil, LoopSpec.occurrences_toTerm] at injective renamed
  let number (id : Nat) : Nat := if next ≤ id ∧ id < after then next' + (id - next) else variant id
  have taken : ∀ id, next ≤ id ∧ id < after → number id = next' + (id - next) := fun id inside => if_pos inside
  have old : ∀ id ∈ spec.occurrences ++ body.occurrences, number id = variant id := by
    intro id member
    have outside : ¬ (next ≤ id ∧ id < after) := by have := fresh id member; omega
    exact if_neg outside
  have specs : spec.rename number = spec' := by
    apply LoopSpec.toTerm_injective
    rw [LoopSpec.toTerm_rename, ← renamed.1]
    apply Term.rename_congr
    intro id occurs
    rw [LoopSpec.occurrences_toTerm] at occurs
    exact old id (List.mem_append_left _ occurs)
  have bodies : body.rename number = body' := by
    rw [← renamed.2]
    exact Term.rename_congr fun id occurs => old id (List.mem_append_right _ occurs)
  obtain ⟨count, ended, shifted⟩ := spec.shifting_threads number next next' threads after threaded
  have moved := shifted fun offset few => by rw [taken (next + offset) (by omega)]; omega
  rw [specs, threaded'] at moved
  obtain ⟨rfl, ended'⟩ : threads' = threads.rename number ∧ after' = next' + count := by
    injection moved with value state
    exact ⟨value, state⟩
  refine ⟨number, ?_, specs, bodies, rfl⟩
  have values : ∀ id ∈ spec.occurrences ++ body.occurrences, number id < next' ∨ after' ≤ number id := by
    intro id member
    apply fresh'
    rw [← specs, ← bodies, LoopSpec.occurrences_rename, Term.occurrences_rename, ← List.map_append]
    exact List.mem_map_of_mem member
  have kinds : ∀ id ∈ threads.occurrences ++ body.occurrences ++ spec.occurrences,
      id ∈ spec.occurrences ++ body.occurrences ∨ (next ≤ id ∧ id < after) := by
    intro id member
    rcases List.mem_append.mp member with member | member
    · rcases List.mem_append.mp member with member | member
      · rcases spec.mem_occurrences_of_threads threaded member with member | taken
        · exact .inl (List.mem_append_left _ member)
        · exact .inr taken
      · exact .inl (List.mem_append_right _ member)
    · exact .inl (List.mem_append_left _ member)
  intro one member other member' equal
  rcases kinds one member with old₁ | new₁ <;> rcases kinds other member' with old₂ | new₂
  · rw [old one old₁, old other old₂] at equal
    exact injective one old₁ other old₂ equal
  · have := values one old₁
    have := taken other new₂
    omega
  · have := values other old₂
    have := taken one new₁
    omega
  · rw [taken one new₁, taken other new₂] at equal
    omega

end HornLoops
