import HornLoops.Proofs.Loop.Registry
import HornLoops.Proofs.Loop.Sharing

/-!
# The form of procedures

A procedure calls itself, so its clauses and the call at their end have to fit together: one name, one number of
arguments, and no variables but those that a copy of the clause renews. Nor may a loop be left in it, since loops in a
body are compiled when the procedure is made. The threads of an iterator bring in no loops and have the same positions in
all calls, whichever branch they come from; what remains is to carry this through the compilation of nested loops, where
procedures are registered while the goals around them are still being rewritten.
-/

namespace HornLoops

/-! ## Goals without loops -/

namespace Term

theorem nameArity?_build (name : String) (args : List Term) :
    (build name args).nameArity? = some (name, args.length) := by
  cases args <;> simp [build, nameArity?]

/-- A call of a predicate that is no control construct is one conjunct. -/
theorem isConjunct_build {name : String} (other : name ≠ "true") (single : name ≠ ",") (args : List Term) :
    (build name args).IsConjunct := by
  match args with
  | [] => exact ⟨by simp [build, truth, other], by simp [build, conjuncts]⟩
  | [_] => exact ⟨by simp [build, truth], by simp [build, conjuncts]⟩
  | [_, _] => exact ⟨by simp [build, truth], by simp [build, conjuncts, single]⟩
  | _ :: _ :: _ :: _ => exact ⟨by simp [build, truth], by simp [build, conjuncts]⟩

/-- The last goal of a conjunction stays the last one, whatever stands before it. -/
theorem getLast?_conjuncts_conjunction {last : Term} (single : last.IsConjunct) (goals : List Term) :
    (conjunction (goals ++ [last])).conjuncts.getLast? = some last := by
  rw [conjunction_append goals single.1]
  induction goals.filter (fun goal => goal ≠ truth) with
  | nil => rw [List.nil_append, joinGoals, single.2, List.getLast?_singleton]
  | cons goal rest ih =>
    have spine : (both goal (joinGoals (rest ++ [last]))).conjuncts =
        goal :: (joinGoals (rest ++ [last])).conjuncts := by
      simp [both, binary, conjuncts]
    rw [joinGoals_append, spine, List.getLast?_cons, ih, Option.getD_some]

end Term

/-- A call whose name is no control construct is not a loop. -/
theorem loopless_build {name : String} (junction : isJunction name = false) (modality : isModality name = false)
    (other : name ≠ "do") (args : List Term) : Loopless (.build name args) := by
  match args with
  | [] => exact loopless_leaf trivial
  | [_] => exact loopless_leaf modality
  | [_, _] => exact loopless_leaf ⟨junction, fun named => absurd named other⟩
  | _ :: _ :: _ :: _ => exact loopless_leaf trivial

/-- A conjunction of goals without loops has no loops. -/
theorem loopless_conjunction {goals : List Term} (each : ∀ goal ∈ goals, Loopless goal) :
    Loopless (.conjunction goals) :=
  Term.conjunction_induction (loopless_leaf trivial)
    (fun _ _ first rest => (loopless_junction (by decide)).mpr ⟨first, rest⟩) each

/-! ## Goals of threads -/

namespace Goal

theorem loopless_evaluate (target expression : Term) : Loopless (evaluate target expression) :=
  loopless_build (by decide) (by decide) (by decide) [target, expression]

theorem loopless_equal (left right : Term) : Loopless (.binary "=" left right) :=
  loopless_build (by decide) (by decide) (by decide) [left, right]

end Goal

open Goal

/-- Whether the goals that threads bring in are free of loops. -/
def Threads.Plain (threads : Threads) : Prop := ∀ goal ∈ threads.prelude ++ threads.steps, Loopless goal

namespace Threads.Plain

variable {threads : Threads}

theorem of_forall (prelude : ∀ goal ∈ threads.prelude, Loopless goal) (steps : ∀ goal ∈ threads.steps, Loopless goal) :
    threads.Plain := List.forall_mem_append.mpr ⟨prelude, steps⟩

theorem append {left right : Threads} (first : left.Plain) (second : right.Plain) : (left.append right).Plain := by
  obtain ⟨prelude, steps⟩ := List.forall_mem_append.mp first
  obtain ⟨prelude', steps'⟩ := List.forall_mem_append.mp second
  exact of_forall (List.forall_mem_append.mpr ⟨prelude, prelude'⟩) (List.forall_mem_append.mpr ⟨steps, steps'⟩)

end Threads.Plain

namespace LoopIterator

/-- The choice between a limit that is known and one that is not is made without loops. -/
theorem loopless_openLimit (stop start max : Term) : Loopless (openLimit stop start max) := by
  refine (loopless_junction (by decide)).mpr ⟨(loopless_junction (by decide)).mpr ⟨?_, loopless_equal stop max⟩,
    loopless_evaluate _ _⟩
  exact loopless_build (by decide) (by decide) (by decide) [max]

/-- The threads of an iterator bring in no loops. -/
theorem plain_threads (iterator : LoopIterator) : Yields Threads.Plain iterator.threads := by
  have arg (args : List Term) : Loopless (.build "arg" args) := loopless_build (by decide) (by decide) (by decide) args
  have functor (args : List Term) : Loopless (.build "functor" args) :=
    loopless_build (by decide) (by decide) (by decide) args
  intro next threads after threaded
  cases Draws.of_threads threaded with
  | @countFrom index first max begins =>
    cases max.constant? <;> simp [Threads.Plain, openCounter, loopless_evaluate, loopless_openLimit]
  | arguments element position | unknownArguments element id position =>
    cases position <;> simp [Threads.Plain, argumentThreads, arg, functor, loopless_evaluate, loopless_equal]
  | _ => simp [Threads.Plain, closedCounter, openCounter, threadParams, loopless_evaluate, loopless_openLimit]

end LoopIterator

/-- The threads of a loop bring in no loops. -/
theorem LoopSpec.plain_threads (spec : LoopSpec) : Yields Threads.Plain spec.threads :=
  yields_threads (by simp [Threads.Plain]) .append fun iterator _ => iterator.plain_threads

/-! ## Procedures in form -/

/-- Whether the variables of a clause are numbered below its width, so that a copy renews all of them. -/
def Clause.Numbered (clause : Clause) : Prop := clause.head.Below clause.width ∧ clause.body.Below clause.width

theorem Clause.numbered_ofTerms (head body : Term) : (Clause.ofTerms head body).Numbered :=
  ⟨Term.below_rename_idxOf (by simp), Term.below_rename_idxOf (by simp)⟩

/-- What a procedure has to look like to be run. -/
structure Procedure.Formed (procedure : Procedure) : Prop where
  /-- The clause that ends the loop has the name and the number of arguments of the procedure. -/
  base : procedure.base.head.nameArity? = some (procedure.name, procedure.arity)
  /-- So has the clause for another iteration. -/
  recursive : procedure.recursive.head.nameArity? = some (procedure.name, procedure.arity)
  /-- An iteration ends with a call of the procedure. -/
  call : ∃ call, procedure.recursive.body.conjuncts.getLast? = some call ∧
    call.nameArity? = some (procedure.name, procedure.arity)
  /-- A copy of a clause renews all its variables. -/
  numbered : ∀ clause ∈ procedure.clauses, clause.Numbered
  /-- There are no loops in an iteration. -/
  loopless : Loopless procedure.recursive.body

/-- The name of a procedure is no control construct. -/
theorem Procedures.isJunction_nameOf (number : Nat) : isJunction (nameOf number) = false := by
  have differs {name : String} (other : name.toList.take 4 ≠ ['d', 'o', '_', '_']) : nameOf number ≠ name :=
    nameOf_ne other number
  simp [isJunction, differs (show ",".toList.take 4 ≠ _ by decide), differs (show ";".toList.take 4 ≠ _ by decide),
    differs (show "->".toList.take 4 ≠ _ by decide)]

theorem Procedures.isModality_nameOf (number : Nat) : isModality (nameOf number) = false := by
  have differs {name : String} (other : name.toList.take 4 ≠ ['d', 'o', '_', '_']) : nameOf number ≠ name :=
    nameOf_ne other number
  simp [isModality, differs (show "\\+".toList.take 4 ≠ _ by decide),
    differs (show "call".toList.take 4 ≠ _ by decide)]

/-- A call of a procedure is not a loop. -/
theorem loopless_call (number : Nat) (args : List Term) : Loopless (.build (Procedures.nameOf number) args) :=
  loopless_build (Procedures.isJunction_nameOf number) (Procedures.isModality_nameOf number)
    (Procedures.nameOf_ne (by decide) number) args

namespace Threads

variable {threads : Threads}

/-- A goal that calls a procedure after a prelude without loops has no loops. -/
theorem loopless_initialGoal (plain : threads.Plain) (number : Nat) :
    Loopless (threads.initialGoal (Procedures.nameOf number)) := by
  have prelude : ∀ goal ∈ threads.prelude, Loopless goal := (List.forall_mem_append.mp plain).1
  exact loopless_conjunction
    (List.forall_mem_append.mpr ⟨prelude, List.forall_mem_singleton.mpr (loopless_call number _)⟩)

/-- The procedure of threads whose calls fit together is in form, if its body has no loops. -/
theorem formed_procedure (aligned : threads.Aligned) (plain : threads.Plain) {body : Term} (loopless : Loopless body)
    (number : Nat) : (threads.procedure (Procedures.nameOf number) body).Formed := by
  obtain ⟨terminal, head, call⟩ := aligned
  refine ⟨?_, ?_, ?_, ?_, ?_⟩
  · show (Term.rename _ _).nameArity? = _
    rw [Term.nameArity?_rename, Term.nameArity?_build, terminal]
    rfl
  · show (Term.rename _ _).nameArity? = _
    rw [Term.nameArity?_rename, Term.nameArity?_build, head]
    rfl
  · -- The clause is the renamed one, and renaming keeps the order of its goals.
    let normal := (Term.varsAll [.build (Procedures.nameOf number) threads.head,
      .conjunction (threads.steps ++ [body, .build (Procedures.nameOf number) threads.call])]).idxOf
    have kept : ((Term.build (Procedures.nameOf number) threads.call).rename normal).IsConjunct := by
      rw [Term.rename_build]
      exact Term.isConjunct_build (Procedures.nameOf_ne (by decide) number) (Procedures.nameOf_ne (by decide) number) _
    have last := Term.getLast?_conjuncts_conjunction kept ((threads.steps ++ [body]).map (Term.rename normal))
    refine ⟨(Term.build (Procedures.nameOf number) threads.call).rename normal, ?_, ?_⟩
    · rw [← last, ← List.map_singleton, ← List.map_append, ← Term.rename_conjunction, List.append_assoc]
      rfl
    · rw [Term.nameArity?_rename, Term.nameArity?_build, call]
      rfl
  · have numbered := Clause.numbered_ofTerms
    exact List.forall_mem_cons.mpr ⟨numbered _ _, List.forall_mem_singleton.mpr (numbered _ _)⟩
  · refine Loopless.rename _ (loopless_conjunction (List.forall_mem_append.mpr ⟨(List.forall_mem_append.mp plain).2, ?_⟩))
    exact List.forall_mem_cons.mpr ⟨loopless, List.forall_mem_singleton.mpr (loopless_call number _)⟩

end Threads

/-! ## Stores in form -/

/-- Whether all procedures of a store are in form, under names that are given out by stores. -/
def Procedures.Formed (procedures : Procedures) : Prop :=
  ∀ entry ∈ procedures.entries, entry.procedure.Formed ∧ ∃ number, entry.procedure.name = nameOf number

theorem Procedures.formed_empty : Formed {} := by simp [Formed]

/-- Adding a procedure in form keeps the store in form. -/
theorem Procedures.Formed.add {procedures : Procedures} (formed : procedures.Formed) (signature : Signature)
    {procedure : Procedure} (inForm : procedure.Formed) {number : Nat} (named : procedure.name = nameOf number) :
    (procedures.add signature procedure).2.Formed := by
  unfold Procedures.add
  split
  · exact formed
  · exact List.forall_mem_append.mpr ⟨formed, List.forall_mem_singleton.mpr ⟨inForm, number, named⟩⟩

namespace Compiler

/-- A step of compilation keeps stores in form, whether it fails or not, and something holds of its result. -/
def Secures {α : Type} (action : Compiler α) (holds : α → Prop) : Prop :=
  ∀ before, before.procedures.Formed → (storeAfter action before).Formed ∧
    ∀ value after, action before = .ok value after → holds value

namespace Secures

variable {α β : Type} {holds : β → Prop}

theorem pure {value : β} (result : holds value) : Secures (Pure.pure value) holds := by
  intro before formed
  refine ⟨formed, ?_⟩
  rintro _ _ ⟨rfl, rfl⟩
  exact result

theorem ofExcept (value : Except LoopError α) : Secures (MonadExcept.ofExcept value) fun _ => True := by
  intro before formed
  refine ⟨?_, fun _ _ _ => trivial⟩
  cases value <;> exact formed

theorem bind {first : α → Prop} {action : Compiler α} {rest : α → Compiler β} (begins : Secures action first)
    (ends : ∀ value, first value → Secures (rest value) holds) : Secures (action >>= rest) holds := by
  intro before formed
  obtain ⟨formed', result⟩ := begins before formed
  cases begun : action before with
  | error error between =>
    have failed : (action >>= rest) before = .error error between := by simp [Bind.bind, EStateM.bind, begun]
    rw [storeAfter_error begun] at formed'
    refine ⟨by rwa [storeAfter_error failed], fun value after ended => ?_⟩
    rw [failed] at ended
    contradiction
  | ok value between =>
    have continued : (action >>= rest) before = rest value between := by simp [Bind.bind, EStateM.bind, begun]
    rw [storeAfter_ok begun] at formed'
    rw [storeAfter, continued]
    exact ends value (result value between begun) between formed'

/-- The threads of a loop fit together and bring in no loops. -/
theorem threads (spec : LoopSpec) :
    Secures (supplied spec.threads) fun threads => threads.Aligned ∧ threads.Plain := by
  intro before formed
  constructor
  · unfold storeAfter supplied
    cases spec.threads before.next <;> exact formed
  · intro threads after ended
    have threaded := (eq_of_supplied ended).1
    exact ⟨spec.aligned_threads _ _ _ threaded, spec.plain_threads _ _ _ threaded⟩

/-- A procedure that is found has a name that was given out, and one that is made is in form. -/
theorem register {signature : Signature} {make : String → Compiler (Procedure × List α)}
    (makes : ∀ number, Secures (make (Procedures.nameOf number)) fun made =>
      made.1.Formed ∧ made.1.name = Procedures.nameOf number) :
    Secures (Compiler.register signature make) fun result => ∃ number, result.1.name = Procedures.nameOf number := by
  intro before formed
  cases found : before.procedures.registered? signature with
  | some registration =>
    rw [storeAfter, register_found found]
    refine ⟨formed, ?_⟩
    rintro _ _ ⟨rfl, rfl⟩
    obtain ⟨entry, there, _, name⟩ := exists_entry_of_registered? found
    obtain ⟨_, number, named⟩ := formed entry (List.mem_of_getElem? there)
    exact ⟨number, name.symm.trans named⟩
  | none =>
    obtain ⟨formed', result⟩ := makes before.procedures.issued { before with procedures := before.procedures.issue } formed
    rw [storeAfter, register_made found]
    cases made : make (Procedures.nameOf before.procedures.issued)
        { before with procedures := before.procedures.issue } with
    | error error between =>
      rw [storeAfter_error made] at formed'
      exact ⟨formed', fun _ _ ended => by contradiction⟩
    | ok result' between =>
      obtain ⟨procedure, findings⟩ := result'
      rw [storeAfter_ok made] at formed'
      obtain ⟨inForm, named⟩ := result _ _ made
      have added := formed'.add signature inForm named
      refine ⟨added, ?_⟩
      rintro _ _ ⟨rfl, rfl⟩
      obtain ⟨entry, there, _, name⟩ := registers_add between.procedures signature procedure
      obtain ⟨_, number, named'⟩ := added entry (List.mem_of_getElem? there)
      exact ⟨number, name.symm.trans named'⟩

/-- A loop is compiled to a goal without loops if the loops of its body are. -/
theorem compileWith (specs body : Term) (shared : Option VarSet) {expandBody : VarSet → Compiler Treated}
    (expands : ∀ outside, Secures (expandBody outside) fun treated => Loopless treated.1) :
    Secures (Compiler.compileWith specs body shared expandBody) fun compiled => Loopless compiled.goal := by
  refine (ofExcept _).bind fun parsed _ => (threads _).bind fun threads fit => ?_
  obtain ⟨aligned, plain⟩ := fit
  refine (register fun number => (expands threads.context).bind fun treated loopless => pure ?_).bind ?_
  · exact ⟨Threads.formed_procedure aligned plain loopless number, rfl⟩
  · rintro ⟨registration, findings⟩ ⟨number, named⟩
    refine pure ?_
    dsimp only at named ⊢
    rw [named]
    exact Threads.loopless_initialGoal plain number

theorem expandGoal (goal : Term) (outside : VarSet) :
    Secures (Compiler.expandGoal goal outside) fun treated => Loopless treated.1 := by
  unfold Compiler.expandGoal
  induction goal using goalInduction generalizing outside with
  | modality name inner walked ih =>
    rw [treatGoal_modality _ walked]
    exact (ih outside).bind fun treated loopless => pure ((loopless_modality walked).mpr loopless)
  | junction name left right walked ihLeft ihRight =>
    rw [treatGoal_junction _ walked]
    exact (ihLeft _).bind fun treated first => (ihRight _).bind fun treated' second =>
      pure ((loopless_junction walked).mpr ⟨first, second⟩)
  | loop specs body known ih =>
    rw [treatGoal_loop _ known]
    exact (ofExcept _).bind fun spec _ => (compileWith specs body _ ih).bind fun compiled loopless => pure loopless
  | leaf goal leaf =>
    rw [treatGoal_leaf _ leaf]
    exact pure (loopless_leaf leaf)

theorem expandClause (clause : Term) : Secures (Compiler.expandClause clause) fun _ => True := by
  unfold Compiler.expandClause treatClause
  split
  · exact (expandGoal _ _).bind fun _ _ => pure trivial
  · exact (expandGoal _ _).bind fun _ _ => pure trivial
  · exact pure trivial

theorem compileLoop (specs body : Term) (shared : Option VarSet) :
    Secures (Compiler.compileLoop specs body shared) fun compiled => Loopless compiled.goal :=
  compileWith specs body shared (expandGoal body)

end Secures

end Compiler

open Compiler

/-- A call of a compiler keeps stores in form. -/
theorem Procedures.Formed.storeAfter {procedures : Procedures} (formed : procedures.Formed) (next : Nat)
    (call : CompilerCall) : (call.storeAfter procedures next).Formed := by
  cases call with
  | loop specs body shared => exact (Secures.compileLoop specs body shared ⟨next, procedures⟩ formed).1
  | goal term outside => exact (Secures.expandGoal term outside ⟨next, procedures⟩ formed).1
  | clause term => exact (Secures.expandClause term ⟨next, procedures⟩ formed).1

/-- Any number of calls keep stores in form. -/
theorem Procedures.Formed.afterCalls {procedures : Procedures} (formed : procedures.Formed)
    (calls : List (Nat × CompilerCall)) : (procedures.afterCalls calls).Formed := by
  induction calls generalizing procedures with
  | nil => exact formed
  | cons call calls ih => exact ih (formed.storeAfter call.1 call.2)

/-- Whatever calls of a compiler build a store from nothing, whether they fail or not, all its procedures are in form, and
what compiling a goal or a loop then hands back has no loops left. -/
theorem Procedures.afterCalls_formed (calls : List (Nat × CompilerCall)) :
    let procedures := ({} : Procedures).afterCalls calls
    (∀ procedure ∈ procedures.toList, procedure.Formed) ∧
      (∀ next goal outside treated after, Compiler.expandGoal goal outside ⟨next, procedures⟩ = .ok treated after →
        Loopless treated.1) ∧
      ∀ next specs body shared loop after, Compiler.compileLoop specs body shared ⟨next, procedures⟩ = .ok loop after →
        Loopless loop.goal := by
  intro procedures
  have formed : procedures.Formed := formed_empty.afterCalls calls
  refine ⟨?_, ?_, ?_⟩
  · intro procedure member
    obtain ⟨entry, inside, rfl⟩ := List.mem_map.mp member
    exact (formed entry inside).1
  · intro next goal outside treated after ended
    exact (Secures.expandGoal goal outside ⟨next, procedures⟩ formed).2 treated after ended
  · intro next specs body shared loop after ended
    exact (Secures.compileLoop specs body shared ⟨next, procedures⟩ formed).2 loop after ended

/-- The goal `foreach(V0, V1) do \\+ (for(V2, 1, V0) do p(V2))`. -/
def nestedLoops : Term :=
  .binary "do" (.build "foreach" [.var 0, .var 1])
    (.unary "\\+" (.binary "do" (.build "for" [.var 2, .int 1, .var 0]) (.unary "p" (.var 2))))

/-- A loop with another one under a negation leaves two procedures in form, the inner one first, and compiling the loop
again gives a goal without loops. -/
theorem Procedures.afterCalls_formed_nested :
    ∃ inner outer treated after, (({} : Procedures).afterCalls [(3, .goal nestedLoops [])]).toList = [inner, outer] ∧
      inner.Formed ∧ inner.arity = 2 ∧ outer.Formed ∧ outer.arity = 1 ∧
      Compiler.expandGoal nestedLoops [] ⟨3, ({} : Procedures).afterCalls [(3, .goal nestedLoops [])]⟩ =
        .ok treated after ∧ Loopless treated.1 ∧ ¬ Loopless nestedLoops := by
  obtain ⟨formed, loopless, _⟩ := afterCalls_formed [(3, .goal nestedLoops [])]
  have both : (({} : Procedures).afterCalls [(3, .goal nestedLoops [])]).toList = [_, _] := rfl
  refine ⟨_, _, _, _, both, formed _ (by rw [both]; simp), rfl, formed _ (by rw [both]; simp), rfl, rfl, ?_, ?_⟩
  · exact loopless 3 nestedLoops [] _ _ rfl
  · exact not_loopless_loop rfl _

end HornLoops
