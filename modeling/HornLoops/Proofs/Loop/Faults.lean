import HornLoops.Proofs.Loop.Equivariance

/-!
# What is wrong with a loop

Whether the iterators of a loop can be read and threaded does not depend on the numbers of variables, and neither does
the fault if they cannot. So variants of a loop are both accepted, or both refused for the same reason.
-/

namespace HornLoops

/-! ## Reading -/

namespace LoopIterator

variable {number : Nat → Nat} {term : Term}

theorem mapM_var?_rename {args : List Term} (missing : args.mapM Term.var? = none) :
    (args.map (Term.rename number)).mapM Term.var? = none := by
  induction args with
  | nil => simp at missing
  | cons head tail ih =>
    cases head with
    | var id =>
      cases rest : tail.mapM Term.var? with
      | none => simp [Term.var?, ih rest]
      | some ids => simp [Term.var?, rest] at missing
    | _ => simp [Term.var?]

/-- What can be read after a renaming can be read before it. -/
theorem exists_of_ofTerm_rename {renamed : LoopIterator} (read : ofTerm (term.rename number) = .ok renamed) :
    ∃ iterator, ofTerm term = .ok iterator := by
  unfold ofTerm at read ⊢
  rw [Term.nameArity?_rename, Term.args_rename] at read
  split at read
  case h_8 named =>
    match found : term.args.mapM Term.var? with
    | none => simp [mapM_var?_rename found] at read
    | some ids => simp [named, found]
  case h_9 => contradiction
  all_goals
    rename_i named arguments
    simp only [List.map_eq_cons_iff, List.map_eq_nil_iff] at arguments
  case h_1 | h_2 =>
    obtain ⟨one, _, args, _, two, _, rest, _, rfl⟩ := arguments
    simp [named, args, rest]
  case h_3 | h_4 | h_6 =>
    obtain ⟨one, _, args, _, two, _, rest, _, three, _, last, _, rfl⟩ := arguments
    simp [named, args, rest, last]
  case h_5 | h_7 =>
    obtain ⟨one, _, args, _, two, _, rest, _, three, _, last, _, four, _, final, _, rfl⟩ := arguments
    simp [named, args, rest, last, final]

/-- Only declarations of parameters have a fault of their own. -/
theorem fault_of_ofTerm {error : LoopError} (failed : ofTerm term = .error error) :
    error.fault = if term.nameArity?.map Prod.fst = some "param" then .paramNotVariable else .unknownIterator := by
  unfold ofTerm at failed
  split at failed
  case h_8 named =>
    match found : term.args.mapM Term.var? with
    | some ids => simp [found] at failed
    | none =>
      simp only [found, Except.error.injEq] at failed
      rw [← failed, named]
      rfl
  case h_9 =>
    have differ : term.nameArity?.map Prod.fst ≠ some "param" := by
      intro same
      obtain ⟨⟨name, arity⟩, named, rfl⟩ := Option.map_eq_some_iff.mp same
      simp_all
    rw [if_neg differ, ← Except.error.inj failed]
  all_goals contradiction

/-- Variants of what is no iterator are none for the same reason. -/
theorem fault_ofTerm_rename (number : Nat → Nat) {error : LoopError} (failed : ofTerm term = .error error) :
    ∃ error', ofTerm (term.rename number) = .error error' ∧ error'.fault = error.fault := by
  cases read : ofTerm (term.rename number) with
  | ok renamed =>
    obtain ⟨iterator, found⟩ := exists_of_ofTerm_rename read
    rw [failed] at found
    contradiction
  | error error' => exact ⟨error', rfl, by rw [fault_of_ofTerm read, fault_of_ofTerm failed, Term.nameArity?_rename]⟩

end LoopIterator

/-- Variants of what is no specification are none for the same reason. -/
theorem LoopSpec.fault_ofTerm_rename (number : Nat → Nat) {term : Term} {error : LoopError}
    (failed : ofTerm term = .error error) :
    ∃ error', ofTerm (term.rename number) = .error error' ∧ error'.fault = error.fault := by
  have each {terms : List Term} (failed : terms.mapM LoopIterator.ofTerm = .error error) :
      ∃ error', (terms.map (Term.rename number)).mapM LoopIterator.ofTerm = .error error' ∧
        error'.fault = error.fault := by
    induction terms with
    | nil => contradiction
    | cons first rest ih =>
      rw [List.mapM_cons] at failed
      rw [List.map_cons, List.mapM_cons]
      cases read : LoopIterator.ofTerm first with
      | error refused =>
        obtain ⟨error', read', same⟩ := LoopIterator.fault_ofTerm_rename number read
        obtain rfl : refused = error := by simpa [read, bind, Except.bind] using failed
        exact ⟨error', by rw [read']; rfl, same⟩
      | ok iterator =>
        cases others : rest.mapM LoopIterator.ofTerm with
        | ok iterators => simp [read, others, bind, Except.bind, pure, Except.pure] at failed
        | error refused =>
          obtain rfl : refused = error := by simpa [read, others, bind, Except.bind] using failed
          obtain ⟨error', others', same⟩ := ih others
          exact ⟨error', by rw [LoopIterator.ofTerm_rename number read, others']; rfl, same⟩
  rw [ofTerm] at failed ⊢
  rw [Term.conjuncts_rename]
  cases found : term.conjuncts.mapM LoopIterator.ofTerm with
  | ok iterators => simp [found, Except.map] at failed
  | error refused =>
    obtain rfl : refused = error := by simpa [found, Except.map] using failed
    obtain ⟨error', found', same⟩ := each found
    exact ⟨error', by rw [found']; rfl, same⟩

/-! ## Threading -/

/-- Computations that both succeed, with values that are related, or both fail for the same reason, whatever variables
they take. -/
def Tandem {α β : Type} (related : α → β → Prop) (left : Supplied LoopError α) (right : Supplied LoopError β) : Prop :=
  ∀ next next',
    (∃ value after value' after', left next = .ok value after ∧ right next' = .ok value' after' ∧ related value value') ∨
      ∃ error after error' after', left next = .error error after ∧ right next' = .error error' after' ∧
        error'.fault = error.fault

namespace Tandem

variable {α β γ δ : Type} {related : α → β → Prop} {related' : γ → δ → Prop}

theorem pure {value : α} {value' : β} (values : related value value') :
    Tandem related (Pure.pure value) (Pure.pure value') :=
  fun next next' => .inl ⟨value, next, value', next', rfl, rfl, values⟩

theorem throw {error error' : LoopError} (same : error'.fault = error.fault) :
    Tandem related (MonadExcept.throw error) (MonadExcept.throw error') :=
  fun next next' => .inr ⟨error, next, error', next', rfl, rfl, same⟩

theorem fresh : Tandem (fun _ _ => True) Supplied.fresh Supplied.fresh :=
  fun next next' => .inl ⟨.var next, next + 1, .var next', next' + 1, rfl, rfl, trivial⟩

variable {left : Supplied LoopError α} {right : Supplied LoopError β}

theorem bind {rest : α → Supplied LoopError γ} {rest' : β → Supplied LoopError δ} (first : Tandem related left right)
    (second : ∀ value value', related value value' → Tandem related' (rest value) (rest' value')) :
    Tandem related' (left >>= rest) (right >>= rest') := by
  intro next next'
  simp only [Bind.bind, EStateM.bind]
  rcases first next next' with ⟨value, after, value', after', ended, ended', values⟩ |
    ⟨error, after, error', after', failed, failed', same⟩
  · rw [ended, ended']
    exact second value value' values after after'
  · rw [failed, failed']
    exact .inr ⟨error, after, error', after', rfl, rfl, same⟩

/-- Computations that always succeed. -/
theorem of_ok (ended : ∀ next, ∃ value after, left next = .ok value after)
    (ended' : ∀ next, ∃ value after, right next = .ok value after) : Tandem (fun _ _ => True) left right := by
  intro next next'
  obtain ⟨value, after, ended⟩ := ended next
  obtain ⟨value', after', ended'⟩ := ended' next'
  exact .inl ⟨value, after, value', after', ended, ended', trivial⟩

end Tandem

namespace LoopIterator

variable (number : Nat → Nat)

theorem tandem_settled (expression expression' : Term) :
    Tandem (fun _ _ => True) (settled expression) (settled expression') := by
  have ended (expression : Term) (next : Nat) : ∃ value after, settled expression next = .ok value after := by
    unfold settled
    cases expression.constant? with
    | some value => exact ⟨_, _, rfl⟩
    | none => exact ⟨_, _, rfl⟩
  exact .of_ok (ended expression) (ended expression')

theorem tandem_threadRange (iterator iterator' : LoopIterator) (index index' first last step : Term) :
    Tandem (fun _ _ => True) (iterator.threadRange index first last step)
      (iterator'.threadRange index' (first.rename number) (last.rename number) (step.rename number)) := by
  have steps : Tandem (· = ·) (iterator.constantStep step) (iterator'.constantStep (step.rename number)) := by
    unfold constantStep
    rw [Term.constant?_rename]
    split
    · split
      · exact .throw rfl
      · exact .pure rfl
    · exact .throw rfl
  have edges (value : Int64) : Tandem (fun _ _ => True) (iterator.openEdge last value)
      (iterator'.openEdge (last.rename number) value) := by
    unfold openEdge
    split
    · exact .pure trivial
    · split
      · exact .pure trivial
      · exact .throw rfl
  refine steps.bind ?_
  rintro value _ rfl
  refine Tandem.fresh.bind fun _ _ _ => ?_
  simp only [Term.constant?_rename]
  rcases first.constant? with _ | start <;> rcases last.constant? with _ | finish
  case some.some =>
    dsimp only
    cases stopBound start finish value with
    | error error => cases error <;> exact .throw rfl
    | ok stop => exact .pure trivial
  all_goals
    exact (edges value).bind fun _ _ _ => (tandem_settled _ _).bind fun _ _ _ => Tandem.fresh.bind fun _ _ _ =>
      Tandem.fresh.bind fun _ _ _ => Tandem.fresh.bind fun _ _ _ => .pure trivial

theorem tandem_threadCount (iterator iterator' : LoopIterator) (index index' first max max' : Term) :
    Tandem (fun _ _ => True) (iterator.threadCount index first max)
      (iterator'.threadCount index' (first.rename number) max') := by
  have starts : Tandem (fun _ _ => True) (iterator.countStart first) (iterator'.countStart (first.rename number)) := by
    unfold countStart
    rw [Term.constant?_rename]
    split
    · split
      · exact .pure trivial
      · exact .throw rfl
    · exact Tandem.fresh.bind fun _ _ _ => .pure trivial
  refine starts.bind ?_
  rintro ⟨start, prelude⟩ ⟨start', prelude'⟩ _
  refine Tandem.fresh.bind fun previous previous' _ => .of_ok (fun next => ?_) fun next => ?_
  · cases max.constant? <;> cases start <;> exact ⟨_, _, rfl⟩
  · cases max'.constant? <;> cases start' <;> exact ⟨_, _, rfl⟩

/-- Variants of an iterator have threads, or have none for the same reason. -/
theorem tandem_threads (iterator : LoopIterator) :
    Tandem (fun _ _ => True) iterator.threads (iterator.rename number).threads := by
  cases iterator with
  | forEach element list => exact .of_ok (fun _ => ⟨_, _, rfl⟩) fun _ => ⟨_, _, rfl⟩
  | forEachArg element structured index =>
    have ended (element structured : Term) (index : Option Term) (next : Nat) :
        ∃ value after, threadArguments element structured index next = .ok value after := by
      cases structured <;> exact ⟨_, _, rfl⟩
    exact .of_ok (ended _ _ _) (ended _ _ _)
  | range index first last step => exact tandem_threadRange number _ _ _ _ first last step
  | count index first max => exact tandem_threadCount number _ _ _ _ first max _
  | fromTo first current next last =>
    have ended (first current next last : Term) (supply : Nat) :
        ∃ value after, threadValue first current next last supply = .ok value after := by
      unfold threadValue
      split <;> exact ⟨_, _, rfl⟩
    exact .of_ok (ended _ _ _ _) (ended _ _ _ _)
  | param vars => exact .pure trivial

end LoopIterator

/-- Variants of a specification have threads, or have none for the same reason. -/
theorem LoopSpec.tandem_threads (number : Nat → Nat) (spec : LoopSpec) :
    Tandem (fun _ _ => True) spec.threads (spec.rename number).threads := by
  have each (iterators : List LoopIterator) : Tandem (fun _ _ => True) (Threads.ofIterators iterators)
      (Threads.ofIterators (iterators.map (LoopIterator.rename number))) := by
    induction iterators with
    | nil => exact .pure trivial
    | cons iterator iterators ih =>
      exact (iterator.tandem_threads number).bind fun _ _ _ => ih.bind fun _ _ _ => .pure trivial
  exact each spec.iterators

end HornLoops
