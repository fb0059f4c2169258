import HornLoops.Proofs.Machine.Iteration

/-!
# Copies for an iteration

An iteration of a loop is made with copies of the arguments that end the loop and of what is done in the iteration. The
variables of a copy are the next ones of the store, so a copy has the value of the original under the values of the
copied variables. Once it is known how the copies match the arguments, an iteration is known up to its goals.
-/

namespace HornLoops

open Machine

/-! ## Copies -/

/-- The number of a variable in a copy whose variables are numbered from a number on. -/
def copyNumber (names : VarSet) (next id : Nat) : Nat := next + names.idxOf id

/-- A copy has the value of the original under the values of the copied variables. -/
theorem Term.subst_rename (solution : Nat → Term) (number : Nat → Nat) (term : Term) :
    (term.rename number).subst solution = term.subst fun id => solution (number id) := by
  rw [Term.rename, Term.subst_subst]
  rfl

/-- Copies of terms are terms over the variables that were added for them. -/
theorem below_copy {names : VarSet} {next : Nat} {term : Term} (known : ∀ id ∈ term.occurrences, id ∈ names) :
    (term.rename (copyNumber names next)).Below (next + names.length) := by
  refine Term.forall_mem_rename fun id occurs => ?_
  have position := List.idxOf_lt_length_of_mem (known id occurs)
  simp only [copyNumber]
  omega

/-- Copies of terms have the values that the copied variables are given. -/
theorem map_subst_copy {names : VarSet} {next : Nat} {terms : List Term} {solution value : Nat → Term}
    (known : ∀ term ∈ terms, ∀ id ∈ term.occurrences, id ∈ names)
    (valued : ∀ id ∈ names, solution (next + names.idxOf id) = value id) :
    (terms.map (Term.rename (copyNumber names next))).map (Term.subst solution) =
      terms.map (Term.subst value) := by
  rw [List.map_map]
  refine List.map_congr_left fun term member => ?_
  rw [Function.comp_apply, Term.subst_rename]
  exact Term.subst_congr fun id occurs => valued id (known term member id occurs)

/-- Terms over the variables of a store have the same values in solutions that agree on these. -/
theorem Bindings.AllBelow.map_subst {bindings : Bindings} {terms : List Term} (below : bindings.AllBelow terms)
    {solution other : Nat → Term} (same : ∀ id < bindings.size, other id = solution id) :
    terms.map (Term.subst other) = terms.map (Term.subst solution) :=
  List.map_congr_left fun term member =>
    Term.subst_congr fun id occurs => same id (below term member id occurs)

namespace Threads

/-- The variables of the arguments that end a loop. -/
def endNames (threads : Threads) : VarSet := Term.varsAll threads.terminal

/-- A copy of the arguments that end a loop, with variables from a number on. -/
def endCopy (threads : Threads) (next : Nat) : List Term :=
  threads.terminal.map (Term.rename (copyNumber threads.endNames next))

/-- The variables of one iteration. -/
def stepNames (threads : Threads) (body : Term) : VarSet :=
  Term.varsAll (threads.head ++ .conjunction (threads.steps ++ [body]) :: threads.call)

theorem stepCopy_eq (threads : Threads) (body : Term) (next : Nat) :
    threads.stepCopy body next =
      (threads.head.map (Term.rename (copyNumber (threads.stepNames body) next)),
        (threads.steps ++ [body]).map (Term.rename (copyNumber (threads.stepNames body) next)),
        threads.call.map (Term.rename (copyNumber (threads.stepNames body) next))) := by
  simp only [stepCopy, Term.rename_rename]
  rfl

theorem instantiate_terminal (threads : Threads) (body : Term) (next : Nat) :
    (threads.plan body).terminal.instantiate next = threads.endCopy next := by
  simp only [plan, Template.ofTerms, Template.instantiate, List.map_map, Function.comp_def,
    Term.rename_rename]
  rfl

theorem mem_endNames {threads : Threads} {term : Term} (member : term ∈ threads.terminal) {id : Nat}
    (occurs : id ∈ term.occurrences) : id ∈ threads.endNames :=
  Term.mem_varsAll.mpr ⟨term, member, occurs⟩

theorem mem_stepNames {threads : Threads} {body term : Term}
    (member : term ∈ threads.head ++ threads.steps ++ threads.call) {id : Nat}
    (occurs : id ∈ term.occurrences) : id ∈ threads.stepNames body := by
  refine Term.mem_varsAll.mpr ?_
  simp only [List.mem_append] at member
  rcases member with (member | member) | member
  · exact ⟨term, by simp [member], occurs⟩
  · refine ⟨.conjunction (threads.steps ++ [body]), by simp, ?_⟩
    rw [Term.occurrences_conjunction]
    exact List.mem_flatMap.mpr ⟨term, by simp [member], occurs⟩
  · exact ⟨term, by simp [member], occurs⟩

end Threads

/-- The store with variables for a copy of the arguments that end a loop. -/
abbrev endStore (threads : Threads) (bindings : Bindings) : Bindings :=
  bindings.reserve (bindings.size + threads.endNames.length)

/-- The store with variables for a copy of an iteration. -/
abbrev stepStore (threads : Threads) (body : Term) (bindings : Bindings) : Bindings :=
  (endStore threads bindings).reserve
    ((endStore threads bindings).size + (threads.stepNames body).length)

/-! ## Iterations -/

section

variable {σ : Type} {fuel : Nat} {threads : Threads} {body : Term} {args : List Term} {depth : Nat} {machine : Machine}

/-- Arguments that end a loop are handed on. -/
theorem iteration_ended (admits : machine.Admits depth) {after : Bindings}
    (ended : (endStore threads machine.bindings).unifyAll fuel (threads.endCopy machine.bindings.size) args =
      (some true, after)) (k : Continuation σ) (proceed : List Term → List Term → Nat → Continuation σ) (acc : σ) :
    iteration fuel threads body args depth k proceed acc machine = (do
      let result ← k acc
      Run.undoTo machine.bindings.mark
      return result) { machine with bindings := after } := by
  rw [iteration, bind_of_ok admits.checkDepth, Run.mark_bind, Run.copyTemplate_bind, threads.instantiate_terminal body _,
    Run.unifyAll_bind_some _ ended]
  rfl

/-- Arguments that do not end a loop are matched with a copy of the iteration. -/
theorem iteration_ongoing (admits : machine.Admits depth)
    (ongoing : (endStore threads machine.bindings).unifyAll fuel (threads.endCopy machine.bindings.size) args =
      (some false, endStore threads machine.bindings)) {outcome : Bool} {begun : Bindings}
    (begins : (stepStore threads body machine.bindings).unifyAll fuel
        (threads.stepCopy body (endStore threads machine.bindings).size).1 args = (some outcome, begun))
    (k : Continuation σ) (proceed : List Term → List Term → Nat → Continuation σ) (acc : σ) :
    iteration fuel threads body args depth k proceed acc machine = (do
      let result ←
        if outcome then
          proceed (threads.stepCopy body (endStore threads machine.bindings).size).2.1
            (threads.stepCopy body (endStore threads machine.bindings).size).2.2 (machine.barriers + 1) acc
        else pure (.more, acc)
      Run.undoTo machine.bindings.mark
      return (result.1.beyond (machine.barriers + 1), result.2))
        { machine with bindings := begun, barriers := machine.barriers + 1 } := by
  rw [iteration, bind_of_ok admits.checkDepth, Run.mark_bind, Run.copyTemplate_bind, threads.instantiate_terminal body _,
    Run.unifyAll_bind_some _ ongoing, if_neg Bool.false_ne_true, Run.take_bind]
  refine (Run.unifyAll_bind_some { machine with
    bindings := stepStore threads body machine.bindings
    barriers := machine.barriers + 1 } begins _).trans ?_
  cases outcome <;> rfl

end

end HornLoops
