import HornLoops.Proofs.Loop.Renaming

/-!
# What an iteration sees

The goal that starts a loop sees the surroundings only: the terms that its iterators look at once, and the shared
variables. Whatever an iterator calls local is not among them.

The loops inside the body of a loop share variables with what is around them. For a loop that becomes a procedure this
is what the clause of an iteration has besides the body: variables in the head, in the steps and in the call of the next
iteration. For a loop that is settled it is read off the iterators: what is new in every iteration, and the shared
variables. The two are the same, apart from variables that were taken for the threads.
-/

namespace HornLoops

/-! ## Variables that are not taken -/

/-- Variables are only taken, and something holds of the value as far as a variable is concerned that is not among those
that were taken. -/
def Spares {ε α : Type} (id : Nat) (holds : α → Prop) (action : Supplied ε α) : Prop :=
  ∀ next value after, action next = .ok value after → next ≤ after ∧ (id < next ∨ after ≤ id → holds value)

namespace Spares

variable {ε α β : Type} {id : Nat} {holds : β → Prop}

theorem pure {value : β} (result : holds value) : Spares (ε := ε) id holds (Pure.pure value) := by
  rintro next _ _ ⟨rfl, rfl⟩
  exact ⟨Nat.le_refl _, fun _ => result⟩

theorem bind {first : α → Prop} {action : Supplied ε α} {rest : α → Supplied ε β} (begins : Spares id first action)
    (ends : ∀ value, Spares id (fun result => first value → holds result) (rest value)) :
    Spares id holds (action >>= rest) := by
  intro next value after ended
  obtain ⟨first, between, begun, ended⟩ := exists_of_bind ended
  obtain ⟨taken, result⟩ := begins next first between begun
  obtain ⟨taken', result'⟩ := ends first between value after ended
  have early (old : id < next ∨ after ≤ id) : id < next ∨ between ≤ id := by omega
  have late (old : id < next ∨ after ≤ id) : id < between ∨ after ≤ id := by omega
  exact ⟨Nat.le_trans taken taken', fun old => result' (late old) (result (early old))⟩

end Spares

/-! ## Threads -/

/-- The variables that an iteration can see, with repetitions. -/
def Threads.visible (threads : Threads) : List Nat :=
  (threads.head ++ threads.steps ++ threads.call).flatMap Term.occurrences

theorem Threads.mem_context {threads : Threads} {id : Nat} : id ∈ threads.context ↔ id ∈ threads.visible := by
  rw [context, Term.varsAll, VarSet.mem_ofList, Term.occurrencesAll_eq_flatMap, visible]

theorem Threads.mem_visible_append {left right : Threads} {id : Nat} :
    id ∈ (left.append right).visible ↔ id ∈ left.visible ∨ id ∈ right.visible := by
  simp only [visible, append, List.flatMap_append, List.mem_append]
  tauto

namespace LoopIterator

/-- The variables that an iterator makes known to an iteration: those that are new in it and declared ones. -/
def exposed (iterator : LoopIterator) : List Nat := iterator.localTerms.flatMap Term.occurrences ++ iterator.declared

variable {id : Nat}

theorem ne_of_spared {next taken : Nat} (old : id < next ∨ next + taken ≤ id) (offset : Nat) (few : offset < taken) :
    id ≠ next + offset := by omega

/-- Apart from variables that are taken for it, the thread of an iterator shows an iteration what the iterator makes
known. -/
theorem exposed_threads (iterator : LoopIterator) :
    Spares id (fun threads => id ∈ threads.visible ↔ id ∈ iterator.exposed) iterator.threads := by
  intro next threads after threaded
  cases Draws.of_threads threaded with
  | arguments element position | unknownArguments element var position =>
    refine ⟨by omega, fun old => ?_⟩
    cases position <;>
      simp [Threads.visible, exposed, localTerms, declared, argumentThreads, Goal.evaluate, Term.binary, Nat.add_assoc,
        ne_of_spared old]
  | value | params => exact ⟨by omega, fun old => by simp [Threads.visible, exposed, localTerms, declared, threadParams]⟩
  | _ =>
    refine ⟨by omega, fun old => ?_⟩
    have first := ne_of_spared old 0 (by omega)
    simp_all [Threads.visible, exposed, localTerms, declared, closedCounter, openCounter, Goal.evaluate, Term.cons,
      Term.binary, Nat.add_assoc, ne_of_spared old]

end LoopIterator

namespace LoopSpec

/-- Apart from variables that are taken for them, the threads of a loop show an iteration what its iterators make
known. -/
theorem exposed_threads (spec : LoopSpec) (id : Nat) :
    Spares id (fun threads => id ∈ threads.visible ↔ id ∈ spec.iterators.flatMap LoopIterator.exposed) spec.threads := by
  have all (iterators : List LoopIterator) :
      Spares id (fun threads => id ∈ threads.visible ↔ id ∈ iterators.flatMap LoopIterator.exposed)
        (Threads.ofIterators iterators) := by
    induction iterators with
    | nil => exact .pure (by simp [Threads.visible])
    | cons iterator iterators ih =>
      refine iterator.exposed_threads.bind fun first => ih.bind fun rest => .pure fun others one => ?_
      rw [Threads.mem_visible_append, one, others, List.flatMap_cons, List.mem_append]
  exact all spec.iterators

variable {id : Nat} {spec : LoopSpec}

/-- The variables of some terms of the iterators of a loop and its declared variables. -/
theorem mem_flatMap_terms (terms : LoopIterator → List Term) :
    (id ∈ spec.iterators.flatMap fun iterator => (terms iterator).flatMap Term.occurrences ++ iterator.declared) ↔
      id ∈ Term.varsAll (spec.iterators.flatMap terms) ∨ id ∈ spec.declared := by
  simp only [List.mem_flatMap, List.mem_append, Term.mem_varsAll, mem_declared]
  constructor
  · rintro ⟨iterator, member, ⟨term, inside, occurs⟩ | declares⟩
    · exact .inl ⟨term, ⟨iterator, member, inside⟩, occurs⟩
    · exact .inr ⟨iterator, member, declares⟩
  · rintro (⟨term, ⟨iterator, member, inside⟩, occurs⟩ | ⟨iterator, member, declares⟩)
    · exact ⟨iterator, member, .inl ⟨term, inside, occurs⟩⟩
    · exact ⟨iterator, member, .inr declares⟩

/-- The iterators of a loop make known what is new in every iteration and the declared variables. -/
theorem mem_exposed : id ∈ spec.iterators.flatMap LoopIterator.exposed ↔ id ∈ spec.localVars ∨ id ∈ spec.declared :=
  mem_flatMap_terms LoopIterator.localTerms

/-- What an iteration of a settled loop can see, apart from variables that are taken for its threads, is what is put
around the loops inside its body. -/
theorem mem_context_withParams {shared : VarSet} {next after : Nat} {threads : Threads}
    (threaded : (spec.withParams shared).threads next = .ok threads after) (old : id < next ∨ after ≤ id) :
    id ∈ threads.context ↔ id ∈ spec.localVars.extend shared := by
  have seen : id ∈ threads.visible ↔ id ∈ (spec.withParams shared).iterators.flatMap LoopIterator.exposed :=
    ((spec.withParams shared).exposed_threads id next threads after threaded).2 old
  rw [Threads.mem_context, seen, mem_exposed, localVars_withParams, mem_declared_withParams, VarSet.mem_extend]

end LoopSpec

/-! ## The first call -/

/-- The variables of the goal that starts a loop, with repetitions. -/
def Threads.entry (threads : Threads) : List Nat := (threads.prelude ++ threads.initial).flatMap Term.occurrences

theorem Threads.mem_entry_append {left right : Threads} {id : Nat} :
    id ∈ (left.append right).entry ↔ id ∈ left.entry ∨ id ∈ right.entry := by
  simp only [entry, append, List.flatMap_append, List.mem_append]
  tauto

theorem Threads.occurrences_initialGoal (threads : Threads) (name : String) :
    (threads.initialGoal name).occurrences = threads.entry := by
  simp [initialGoal, entry, Term.occurrences_conjunction]

namespace LoopIterator

/-- The variables of an iterator that belong to the surroundings of the loop: those in terms that are looked at once and
declared ones. -/
def surrounding (iterator : LoopIterator) : List Nat :=
  iterator.globalTerms.flatMap Term.occurrences ++ iterator.declared

variable {id : Nat}

/-- Apart from variables that are taken for it, the thread of an iterator starts with variables of the surroundings. -/
theorem surrounding_threads (iterator : LoopIterator) :
    Spares id (fun threads => id ∉ iterator.surrounding → id ∉ threads.entry) iterator.threads := by
  intro next threads after threaded
  cases Draws.of_threads threaded with
  | value | params =>
    exact ⟨by omega, fun old outside => by simp_all [Threads.entry, surrounding, globalTerms, declared, threadParams]⟩
  | @countFrom index initial max =>
    refine ⟨by omega, fun old outside => ?_⟩
    have first := ne_of_spared old 0 (by omega)
    cases limited : max.constant? <;>
      simp_all [Threads.entry, surrounding, globalTerms, declared, openCounter, openLimit, Goal.evaluate, Term.binary,
        Term.unary, ne_of_spared old]
  | _ =>
    refine ⟨by omega, fun old outside => ?_⟩
    have first := ne_of_spared old 0 (by omega)
    simp_all [Threads.entry, surrounding, globalTerms, declared, argumentThreads, closedCounter, openCounter, openLimit,
      Goal.evaluate, Term.binary, Term.unary, ne_of_spared old]

end LoopIterator

namespace LoopSpec

/-- Apart from variables that are taken for it, the goal that starts a loop mentions what its iterators look at once and
the declared variables. -/
theorem mem_of_entry {spec : LoopSpec} {next after : Nat} {threads : Threads}
    (threaded : spec.threads next = .ok threads after) {id : Nat} (occurs : id ∈ threads.entry)
    (old : id < next ∨ after ≤ id) : id ∈ spec.globalVars ∨ id ∈ spec.declared := by
  have all (iterators : List LoopIterator) :
      Spares id (fun threads => id ∉ iterators.flatMap LoopIterator.surrounding → id ∉ threads.entry)
        (Threads.ofIterators iterators) := by
    induction iterators with
    | nil => exact .pure fun _ => List.not_mem_nil
    | cons iterator iterators ih =>
      refine iterator.surrounding_threads.bind fun first => ih.bind fun rest => .pure fun others one outside => ?_
      rw [List.flatMap_cons, List.mem_append, not_or] at outside
      rw [Threads.mem_entry_append, not_or]
      exact ⟨one outside.1, others outside.2⟩
  by_contra neither
  have outside : id ∉ spec.iterators.flatMap LoopIterator.surrounding := fun inside =>
    neither ((mem_flatMap_terms LoopIterator.globalTerms).mp inside)
  exact (all spec.iterators next threads after threaded).2 old outside occurs

end LoopSpec

end HornLoops
