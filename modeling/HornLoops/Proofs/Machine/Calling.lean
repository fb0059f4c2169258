import HornLoops.Machine.Session
import HornLoops.Proofs.Machine.Iteration

/-!
# Calls by name and by handle

The procedure of a loop is called by its name from goals, those of its own clauses included, and by its handle from
outside. The two calls are the same as long as the program has no clauses under the name. Nothing keeps it from having
some: names of procedures are not reserved, and clauses of the program come before procedures.
-/

namespace HornLoops

open Compiler Machine

/-- Calls a predicate by its name. Variables of the arguments are renamed apart, and the arguments as bound by the first
solution are handed back. -/
def Machine.callByName (fuel barrier : Nat) (name : String) (args : List Term) : Run (Option (List Term)) :=
  Run.restoring do
    let args ← Run.copyTemplate (.ofTerms args)
    let (_, found) ← solve fuel (Option (List Term)) (.build name args) 0 barrier (noteValues args) none
    return found

section

variable {machine : Machine} (ordered : machine.procedures.Ordered) {handle : Nat} {procedure : Procedure}
  (there : machine.procedures.get? handle = some procedure)
include ordered there

/-- Solving a goal with the name of a procedure calls the procedure, if the program has no clauses for the goal. -/
theorem solve_procedure {σ : Type} {args : List Term}
    (free : machine.program.clausesFor procedure.name args.length = []) (fuel depth barrier : Nat) (k : Continuation σ)
    (acc : σ) :
    solve (fuel + 1) σ (.build procedure.name args) depth barrier k acc machine =
      if procedure.arity = args.length then callProcedure fuel (solve fuel) procedure args depth k acc machine
      else (Run.fail (.unknownProcedure procedure.name args.length) : Run (Outcome σ)) machine := by
  obtain ⟨entry, position, rfl⟩ := Option.map_eq_some_iff.mp there
  obtain ⟨number, _, name⟩ := ordered.named entry (List.mem_of_getElem? position)
  have asked : Goal.ofCall entry.procedure.name args = .predicate entry.procedure.name args := by
    rw [name, Goal.ofCall_nameOf]
  rw [solve_succ (Term.isVar_build _ args), Goal.ofTerm_build, asked]
  exact callPredicate_of_named free (ordered.named?_eq there) fuel (solve fuel) depth k acc

/-- Calling a procedure by its handle is calling it by its name, if the program has no clauses under the name. -/
theorem invoke_eq_of_ordered {args : List Term} (free : machine.program.clausesFor procedure.name args.length = [])
    (fuel barrier : Nat) :
    invoke fuel handle args machine = callByName (fuel + 1) barrier procedure.name args machine := by
  -- The arguments are copied on a machine with the same program and the same procedures.
  let copy := (Template.ofTerms args).instantiate machine.bindings.size
  let copied : Machine := { machine with
    bindings := machine.bindings.reserve (machine.bindings.size + (Template.ofTerms args).width) }
  have length : copy.length = args.length := by simp [copy, Template.ofTerms, Template.instantiate]
  have free' : copied.program.clausesFor procedure.name copy.length = [] := by
    rw [length]
    exact free
  have ordered' : copied.procedures.Ordered := ordered
  have solved := solve_procedure ordered' there free' fuel 0 barrier (noteValues copy) none
  unfold invoke callByName
  rw [Run.get_bind]
  simp only [there]
  by_cases fits : procedure.arity = args.length
  · rw [length, if_pos fits] at solved
    rw [if_pos fits]
    unfold Run.restoring
    rw [Run.copyTemplate_bind, Run.copyTemplate_bind]
    simp only [Bind.bind, EStateM.bind]
    rw [solved]
  · rw [length, if_neg fits] at solved
    rw [if_neg fits]
    unfold Run.restoring
    rw [Run.copyTemplate_bind]
    simp only [Bind.bind, EStateM.bind]
    rw [solved]
    have back : copied.bindings.undoTo machine.bindings.mark = machine.bindings := (Bindings.Grown.reserve _ _).undoTo
    show EStateM.Result.error _ machine =
      .error _ { machine with bindings := copied.bindings.undoTo machine.bindings.mark }
    rw [back]

end

/-- Whatever was compiled before and whatever is compiled afterwards, the procedure of a compiled loop does the same for
a call by its handle and for a call by its name, with the same first solution, the same failure and the same errors: as
long as the program has no clauses under the name for that many arguments. -/
theorem invoke_eq_callByName (earlier later : List (Nat × CompilerCall)) {next : Nat} {specs body : Term}
    {shared : Option VarSet} {loop : CompiledLoop} {after : Compilation}
    (compiled : compileLoop specs body shared ⟨next, ({} : Procedures).afterCalls earlier⟩ = .ok loop after)
    {machine : Machine} (store : machine.procedures = after.procedures.afterCalls later) {args : List Term}
    (free : machine.program.clausesFor loop.name args.length = []) (fuel barrier : Nat) :
    invoke fuel loop.handle args machine = callByName (fuel + 1) barrier loop.name args machine := by
  have before := (({} : Procedures).maintains_afterCalls earlier Procedures.ordered_empty).2
  have maintained := (CompilerCall.loop specs body shared).maintains_storeAfter _ next before
  simp only [CompilerCall.storeAfter, Compiler.storeAfter, compiled] at maintained
  have between := maintained.2
  obtain ⟨grown, ordered⟩ := after.procedures.maintains_afterCalls later between
  obtain ⟨_, _, _, entry, _, _, position, _, name, _⟩ := exists_of_compileLoop compiled
  have there : machine.procedures.get? loop.handle = some entry.procedure := by
    rw [store]
    exact (Procedures.Retains.of_isPrefix grown.isPrefix).handles _ _ (by simp [Procedures.get?, position])
  rw [← name] at free ⊢
  exact invoke_eq_of_ordered (store ▸ ordered) there free fuel barrier

/-- A machine with the procedure of the loop `for(V0, 1, 3) do true` and a program. -/
def Machine.countingToThree (clauses : List Clause) : Machine where
  program := ⟨clauses⟩
  procedures := ({} : Procedures).afterCalls
    [(1, .loop (.build "for" [.var 0, .int 1, .int 3]) .truth (some []))]

/-- The clause `do__0(V0) :- fail`, which has the name of the procedure. -/
def shadowingClause : Clause := .ofTerms (.unary "do__0" (.var 0)) (.atom "fail")

/-- A clause with the name of a procedure takes its place in calls by the name. The loop has come to an end for the
argument 4, but there the clause fails. It also fails in place of the second iteration of a loop that was begun by the
handle. Without the clause all these calls succeed. -/
theorem invoke_ne_callByName :
    (invoke 20 0 [.int 4]).run' (countingToThree [shadowingClause]) = some (some [.int 4]) ∧
      (callByName 21 0 "do__0" [.int 4]).run' (countingToThree [shadowingClause]) = some none ∧
      (invoke 20 0 [.int 1]).run' (countingToThree [shadowingClause]) = some none ∧
      (invoke 20 0 [.int 1]).run' (countingToThree []) = some (some [.int 1]) ∧
      (callByName 21 0 "do__0" [.int 1]).run' (countingToThree []) = some (some [.int 1]) := by
  decide +kernel

end HornLoops
