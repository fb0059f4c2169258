import HornLoops.Proofs.Loop.Store

/-!
# Variants share their procedures

The procedure of a loop does not depend on the numbers of its variables, so a loop may be run through the procedure
that was made for a variant of it. For a loop without loops in its body this procedure is made from the threads
and the body of the loop itself.
-/

namespace HornLoops

/-! ## Goals without loops -/

/-- Names of procedures differ from names that start in another way. -/
theorem Procedures.nameOf_ne {name : String} (other : name.toList.take 4 ≠ ['d', 'o', '_', '_'])
    (number : Nat) : nameOf number ≠ name := by
  rintro rfl
  rw [toList_nameOf] at other
  exact other rfl

/-- A goal that calls a procedure is not a loop. -/
theorem Threads.initialGoal_ne_loop (threads : Threads) (number : Nat) (specs body : Term) :
    threads.initialGoal (Procedures.nameOf number) ≠ .binary "do" specs body := by
  have unlike : Procedures.nameOf number ≠ "do" := Procedures.nameOf_ne (by decide) number
  have call : Term.build (Procedures.nameOf number) threads.initial ≠ Term.truth := by
    have other : Procedures.nameOf number ≠ "true" := Procedures.nameOf_ne (by decide) number
    cases threads.initial <;> simp [Term.build, Term.truth, other]
  rw [initialGoal, Term.conjunction, List.filter_append, List.filter_cons_of_pos (by simpa using call),
    List.filter_nil]
  cases threads.prelude.filter fun goal => goal ≠ Term.truth with
  | nil => cases threads.initial <;> simp [Term.joinGoals, Term.build, Term.binary, unlike]
  | cons goal goals => cases goals <;> simp [Term.joinGoals, Term.both, Term.binary]

namespace Expansion

variable {entries : List ProcedureEntry} {next after : Nat} {goal goal' : Term} {outside : VarSet}

/-- A goal without loops is its own expansion. -/
theorem eq_of_loopless (expansion : Expansion entries next goal outside goal' after)
    (loopless : Loopless goal) : goal' = goal := by
  induction expansion with
  | modality walked _ ih => rw [ih ((loopless_modality walked).mp loopless)]
  | junction walked _ _ ihLeft ihRight =>
    obtain ⟨left, right⟩ := (loopless_junction walked).mp loopless
    rw [ihLeft left, ihRight right]
  | loop known read threaded registered signature later =>
    exact absurd loopless (not_loopless_loop known _)
  | leaf leaf => rfl

/-- A goal that is its own expansion has no loops. -/
theorem loopless_of_eq (named : ∀ entry ∈ entries, ∃ number,
      entry.procedure.name = Procedures.nameOf number)
    (expansion : Expansion entries next goal outside goal' after) (same : goal' = goal) :
    Loopless goal := by
  induction expansion with
  | modality walked _ ih =>
    simp only [Term.unary, Term.compound.injEq, true_and, and_true] at same
    exact (loopless_modality walked).mpr (ih same)
  | junction walked _ _ ihLeft ihRight =>
    simp only [Term.binary, Term.compound.injEq, List.cons.injEq, true_and, and_true] at same
    exact (loopless_junction walked).mpr ⟨ihLeft same.1, ihRight same.2⟩
  | loop known read threaded registered signature later =>
    obtain ⟨number, name⟩ := named _ registered
    rw [name] at same
    exact absurd same (Threads.initialGoal_ne_loop _ number _ _)
  | leaf leaf => exact loopless_leaf leaf

end Expansion

/-! ## Procedures of variants -/

variable {threads : Threads} {body specs : Term} {shared : Option VarSet} {after : Compilation} {parsed : LoopSpec}
  {between : Nat}

/-- The procedure of a loop does not depend on the numbers of its variables. -/
theorem Threads.procedure_rename {number : Nat → Nat}
    (injective : InjectiveOn number (threads.occurrences ++ body.occurrences)) (name : String) :
    (threads.rename number).procedure name (body.rename number) = threads.procedure name body := by
  have member {id : Nat} (terms : List Term) (part : ∀ term ∈ terms, term ∈ threads.initial ++
      threads.terminal ++ threads.prelude ++ threads.head ++ threads.steps ++ threads.call)
      (occurs : id ∈ terms.flatMap Term.occurrences) : id ∈ threads.occurrences := by
    obtain ⟨term, inside, occurs⟩ := List.mem_flatMap.mp occurs
    rw [occurrences, Term.occurrencesAll_eq_flatMap]
    exact List.mem_flatMap.mpr ⟨term, part term inside, occurs⟩
  have base := Clause.ofTerms_rename (.build name threads.terminal) .truth (injective.mono (by
    intro id occurs
    simp only [Term.occurrences_build, Term.truth, Term.occurrences_atom, List.append_nil] at occurs
    exact List.mem_append_left _ (member threads.terminal (by simp +contextual) occurs)))
  have recursive := Clause.ofTerms_rename (.build name threads.head)
    (.conjunction (threads.steps ++ [body, .build name threads.call])) (injective.mono (by
      intro id occurs
      simp only [Term.occurrences_build, Term.occurrences_conjunction, List.flatMap_append,
        List.flatMap_cons, List.flatMap_nil, List.append_nil, List.mem_append] at occurs ⊢
      rcases occurs with occurs | occurs | occurs | occurs
      · exact .inl (member threads.head (by simp +contextual) occurs)
      · exact .inl (member threads.steps (by simp +contextual) occurs)
      · exact .inr occurs
      · exact .inl (member threads.call (by simp +contextual) occurs)))
  simp only [Term.rename_build, Term.rename_conjunction, List.map_append, List.map_cons, List.map_nil,
    Term.truth, Term.rename_atom] at base recursive
  simp [procedure, rename, arity, Term.truth, base, recursive]

/-- Renaming threads renames the goal of their loop. -/
theorem Threads.initialGoal_rename (number : Nat → Nat) (threads : Threads) (name : String) :
    (threads.rename number).initialGoal name = (threads.initialGoal name).rename number := by
  simp [initialGoal, rename, Term.rename_conjunction]

/-- Loops with the same signature have the same procedure under every name, whatever new variables are taken for their
threads, and a single renaming maps the first loop to the second one and the goal that runs the first loop to
the goal that runs the second one. -/
theorem Threads.procedure_eq_of_signature_eq {spec spec' : LoopSpec} {body body' : Term}
    (same : Signature.ofLoop spec.toTerm body = Signature.ofLoop spec'.toTerm body')
    {next after next' after' : Nat} {threads threads' : Threads}
    (threaded : spec.threads next = .ok threads after) (threaded' : spec'.threads next' = .ok threads' after')
    (fresh : ∀ id ∈ spec.occurrences ++ body.occurrences, id < next ∨ after ≤ id)
    (fresh' : ∀ id ∈ spec'.occurrences ++ body'.occurrences, id < next' ∨ after' ≤ id) :
    (∀ name, threads.procedure name body = threads'.procedure name body') ∧
      ∃ number, InjectiveOn number (spec.occurrences ++ body.occurrences ++ threads.occurrences) ∧
        spec.rename number = spec' ∧ body.rename number = body' ∧
        ∀ name, (threads.initialGoal name).rename number = threads'.initialGoal name := by
  obtain ⟨number, injective, rfl, rfl, rfl⟩ := exists_number_of_signature_eq same threaded threaded' fresh fresh'
  refine ⟨fun name => ?_, number, injective.mono ?_, rfl, rfl, fun name => ?_⟩
  · exact (procedure_rename (injective.mono fun _ => List.mem_append_left _) name).symm
  · intro id member
    simp only [List.mem_append] at member ⊢
    tauto
  · exact (threads.initialGoal_rename number name).symm

/-- The iterators `foreacharg(X, S), for(I, 1, N), param(P)` over given variables. -/
def LoopSpec.argumentsAndRange (element structured index last shared : Nat) : LoopSpec :=
  ⟨.forEachArg (.var element) (.var structured) none,
    [.range (.var index) (.int 1) (.var last) (.int 1), .param [shared]]⟩

/-- The body `P = f(X, I)` over given variables. -/
def Term.pairedBody (element index shared : Nat) : Term :=
  .binary "=" (.var shared) (.build "f" [.var element, .var index])

/-- A loop and a variant of it, some of whose variables come after the ones that are taken for its threads. -/
theorem Threads.procedure_eq_of_signature_eq_shifted :
    ∃ threads threads' : Threads,
      (LoopSpec.argumentsAndRange 0 1 2 3 4).threads 5 = .ok threads 18 ∧
      (LoopSpec.argumentsAndRange 30 2 1 40 0).threads 10 = .ok threads' 23 ∧
      (∀ name, threads.procedure name (.pairedBody 0 2 4) = threads'.procedure name (.pairedBody 30 1 0)) ∧
      ∃ number : Nat → Nat, number 0 = 30 ∧
        ∀ name, (threads.initialGoal name).rename number = threads'.initialGoal name := by
  have first : (LoopSpec.argumentsAndRange 0 1 2 3 4).threads 5 = .ok _ 18 := rfl
  have second : (LoopSpec.argumentsAndRange 30 2 1 40 0).threads 10 = .ok _ 23 := rfl
  have same : Signature.ofLoop (LoopSpec.argumentsAndRange 0 1 2 3 4).toTerm (.pairedBody 0 2 4) =
      .ofLoop (LoopSpec.argumentsAndRange 30 2 1 40 0).toTerm (.pairedBody 30 1 0) := by decide +kernel
  obtain ⟨procedures, number, _, _, body, goals⟩ :=
    procedure_eq_of_signature_eq same first second (by decide +kernel) (by decide +kernel)
  refine ⟨_, _, first, second, procedures, number, ?_, goals⟩
  simp only [Term.pairedBody, Term.binary, Term.build, Term.rename_compound, Term.rename_var, List.map_cons,
    List.map_nil, Term.compound.injEq, List.cons.injEq, Term.var.injEq] at body
  exact body.2.2.1.2.1

/-- A loop whose body has no loops is run through the procedure of its own threads and body, whether this procedure
was made for it or for a variant. -/
theorem Compiler.Compiles.procedure_eq {before : Compilation} {spec : LoopSpec} {entry : ProcedureEntry}
    {compiled : CompiledLoop} (compiles : Compiles specs body shared before spec threads entry compiled after)
    (sound : after.procedures.Sound)
    (below : ∀ id ∈ specs.occurrences ++ body.occurrences ++ shared.getD [], id < before.next)
    (loopless : Loopless body) : entry.procedure = threads.procedure compiled.name body := by
  obtain ⟨parsed, read, rfl⟩ := compiles.read
  obtain ⟨between, threaded, _⟩ := compiles.threaded
  have bounded := lt_of_read read below
  obtain ⟨spec', body', expanded, threads', next, _, _, _, signature, below', threaded', _, expansion, made⟩ :=
    sound.entry entry (List.mem_of_getElem? compiles.registered)
  obtain ⟨number, injective, rfl, rfl, rfl⟩ :=
    exists_number_of_signature_eq (compiles.signature.symm.trans signature) threaded threaded'
      (fun id occurs => .inl (bounded id occurs)) (fun id occurs => .inl (below' id occurs))
  rw [made, compiles.name, expansion.eq_of_loopless (loopless.rename number)]
  exact Threads.procedure_rename (injective.mono fun _ => List.mem_append_left _) compiled.name

/-- What a machine needs to know of a compiled loop: its goal calls the procedure of its threads and body, which is found
under its name. -/
structure CompiledLoop.Runs (loop : CompiledLoop) (threads : Threads) (body : Term) (procedures : Procedures)
    (number : Nat) : Prop where
  /-- The name of the procedure. -/
  name : loop.name = Procedures.nameOf number
  /-- The number of its arguments. -/
  arity : loop.arity = threads.arity
  /-- The goal that calls it. -/
  goal : loop.goal = threads.initialGoal (Procedures.nameOf number)
  /-- The procedure. -/
  found : procedures.named? (Procedures.nameOf number) =
    some (threads.procedure (Procedures.nameOf number) body)

/-- Compiling a loop whose body has no loops gives a goal that calls the procedure of its threads and body. -/
theorem Compiler.exists_runs (before : Compilation) (sound : before.procedures.Sound)
    (below : ∀ id ∈ specs.occurrences ++ body.occurrences ++ shared.getD [], id < before.next) {loop : CompiledLoop}
    (compiled : compileLoop specs body shared before = .ok loop after) (read : LoopSpec.ofTerm specs = .ok parsed)
    (threaded : ((shared.map parsed.withParams).getD parsed).threads before.next = .ok threads between)
    (loopless : Loopless body) : between ≤ after.next ∧ ∃ number, loop.Runs threads body after.procedures number := by
  have compiles := reaches_compileLoop before sound below
  unfold Reaches at compiles
  rw [compiled] at compiles
  obtain ⟨_, soundAfter, _, spec, threads', entry, compiles⟩ := compiles
  obtain ⟨number, _, named⟩ := soundAfter.named entry (List.mem_of_getElem? compiles.registered)
  obtain ⟨parsed', read', rfl⟩ := compiles.read
  obtain ⟨between', threaded', later⟩ := compiles.threaded
  rw [read, Except.ok.injEq] at read'
  subst read'
  rw [threaded] at threaded'
  injection threaded' with same between
  subst same between
  have made := compiles.procedure_eq soundAfter below loopless
  have name : loop.name = Procedures.nameOf number := compiles.name.symm.trans named
  have found := soundAfter.named?_eq (List.mem_of_getElem? compiles.registered)
  rw [made, name] at found
  exact ⟨later, number, name, compiles.arity, by rw [compiles.goal, name], found⟩

/-- Registering a procedure succeeds if it can be made. -/
theorem Compiler.exists_register {α : Type} (before : Compilation) (signature : Signature)
    (make : String → Compiler (Procedure × List α))
    (made : ∀ name start, ∃ result after, make name start = .ok result after) :
    ∃ result after, register signature make before = .ok result after := by
  cases found : before.procedures.registered? signature with
  | some registration =>
    refine ⟨(registration, []), before, ?_⟩
    simp [register, Bind.bind, EStateM.bind, get, getThe, MonadStateOf.get, EStateM.get, found]
    rfl
  | none =>
    obtain ⟨result, between, ended⟩ := made (Procedures.nameOf before.procedures.issued)
      { before with procedures := before.procedures.issue }
    refine ⟨((between.procedures.add signature result.1).1, result.2),
      { between with procedures := (between.procedures.add signature result.1).2 }, ?_⟩
    simp [register, Bind.bind, EStateM.bind, get, getThe, MonadStateOf.get, EStateM.get, found, issueName, modifyGet,
      MonadStateOf.modifyGet, EStateM.modifyGet, ended, add]
    rfl

theorem Compiler.ofExcept_eq_pure (read : LoopSpec.ofTerm specs = .ok parsed) :
    (MonadExcept.ofExcept (LoopSpec.ofTerm specs) : Compiler LoopSpec) = pure parsed := by
  rw [read]
  rfl

/-- A loop with a body that nothing is done with can be compiled if it has threads. -/
theorem Compiler.exists_compileLoop (before : Compilation) (leaf : IsLeaf body)
    (read : LoopSpec.ofTerm specs = .ok parsed)
    (threaded : ((shared.map parsed.withParams).getD parsed).threads before.next = .ok threads between) :
    ∃ loop after, compileLoop specs body shared before = .ok loop after := by
  have idle : ∀ outside, expandGoal body outside = pure (body, []) := fun outside => treatGoal_leaf _ leaf outside
  obtain ⟨result, after, registered⟩ := exists_register { before with next := between }
    (.ofLoop ((shared.map parsed.withParams).getD parsed).toTerm body)
    (fun name => pure (threads.procedure name body, ([] : List Diagnostic))) (fun _ _ => ⟨_, _, rfl⟩)
  simp only [compileLoop, compileWith, ofExcept_eq_pure read, idle, pure_bind]
  simp only [Bind.bind, EStateM.bind, supplied, threaded] at registered ⊢
  rw [registered]
  exact ⟨_, _, rfl⟩

end HornLoops
