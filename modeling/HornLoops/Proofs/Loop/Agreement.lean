import HornLoops.Proofs.Loop.Faults
import HornLoops.Proofs.Loop.Interchange
import HornLoops.Proofs.Loop.Registry

/-!
# Compiling with different stores

The body of a loop that a store has a procedure for can be expanded again with that store, and nothing is added then. So
compiling a loop and a variant of it with two stores succeeds with both, or fails with both for the same reason. If it succeeds, it leads to goals that are
counterparts. In any case, the two stores have procedures for the same loops afterwards, apart from loops that they had
procedures for before.
-/

namespace HornLoops

/-! ## Loops with a procedure -/

/-- There is a procedure with a signature. -/
def Recorded (entries : List ProcedureEntry) (signature : Signature) : Prop :=
  ∃ entry ∈ entries, entry.signature = signature

theorem Recorded.of_mem {entries : List ProcedureEntry} {entry : ProcedureEntry} (member : entry ∈ entries) :
    Recorded entries entry.signature := ⟨entry, member, rfl⟩

theorem Recorded.mono {few many : List ProcedureEntry} (subset : few ⊆ many) {signature : Signature}
    (recorded : Recorded few signature) : Recorded many signature := by
  obtain ⟨entry, member, same⟩ := recorded
  exact ⟨entry, subset member, same⟩

theorem Procedures.recorded_add (procedures : Procedures) (signature : Signature) (procedure : Procedure) :
    Recorded (procedures.add signature procedure).2.entries signature := by
  obtain ⟨entry, there, same, _⟩ := Compiler.registers_add procedures signature procedure
  exact ⟨entry, List.mem_of_getElem? there, same⟩

theorem Procedures.mem_entries_add {procedures : Procedures} {signature : Signature} {procedure : Procedure}
    {entry : ProcedureEntry} (member : entry ∈ (procedures.add signature procedure).2.entries) :
    entry ∈ procedures.entries ∨ entry.signature = signature := by
  unfold add at member
  split at member
  · exact .inl member
  · rcases List.mem_append.mp member with member | member
    · exact .inl member
    · rw [List.mem_singleton.mp member]
      exact .inr rfl

/-- Two stores that grew side by side: what one of them has now it had before, or the other one has it too. -/
structure Concordant (before before' after after' : List ProcedureEntry) : Prop where
  /-- Loops in the first store were there before or are in the second one. -/
  left : ∀ entry ∈ after, Recorded before entry.signature ∨ Recorded after' entry.signature
  /-- Loops in the second store were there before or are in the first one. -/
  right : ∀ entry ∈ after', Recorded before' entry.signature ∨ Recorded after entry.signature

namespace Concordant

variable {before before' between between' after after' : List ProcedureEntry}

theorem refl (entries entries' : List ProcedureEntry) : Concordant entries entries' entries entries' :=
  ⟨fun _ member => .inl (.of_mem member), fun _ member => .inl (.of_mem member)⟩

theorem symm (concordant : Concordant before before' after after') : Concordant before' before after' after :=
  ⟨concordant.right, concordant.left⟩

theorem trans (first : Concordant before before' between between') (second : Concordant between between' after after')
    (subset : between ⊆ after) (subset' : between' ⊆ after') : Concordant before before' after after' := by
  constructor
  · intro entry member
    rcases second.left entry member with ⟨other, inside, same⟩ | recorded
    · rw [← same]
      exact (first.left other inside).imp id (.mono subset')
    · exact .inr recorded
  · intro entry member
    rcases second.right entry member with ⟨other, inside, same⟩ | recorded
    · rw [← same]
      exact (first.right other inside).imp id (.mono subset)
    · exact .inr recorded

/-- A procedure for the same loop may be added on both sides. -/
theorem add {procedures procedures' : Procedures}
    (concordant : Concordant before before' procedures.entries procedures'.entries) (signature : Signature)
    (procedure procedure' : Procedure) :
    Concordant before before' (procedures.add signature procedure).2.entries
      (procedures'.add signature procedure').2.entries := by
  constructor
  · intro entry member
    rcases Procedures.mem_entries_add member with member | same
    · exact (concordant.left entry member).imp id (.mono (Procedures.isPrefix_add _ _ _).subset)
    · exact .inr (same ▸ Procedures.recorded_add procedures' entry.signature procedure')
  · intro entry member
    rcases Procedures.mem_entries_add member with member | same
    · exact (concordant.right entry member).imp id (.mono (Procedures.isPrefix_add _ _ _).subset)
    · exact .inr (same ▸ Procedures.recorded_add procedures entry.signature procedure)

end Concordant

/-! ## Compiling again -/

namespace Compiler

/-- The procedure of a loop is made from its threads and its expanded body. -/
def makeProcedure (threads : Threads) (body : Term) (name : String) : Compiler (Procedure × List Diagnostic) := do
  let (body, findings) ← expandGoal body threads.context
  return (threads.procedure name body, findings)

variable {body specs : Term} {before : Compilation} {parsed : LoopSpec} {between : Nat} {error : LoopError}

/-- Compiling a loop whose iterators can be read and threaded comes down to registering its procedure. -/
theorem compileWith_eq (body : Term) (shared : Option VarSet) (read : LoopSpec.ofTerm specs = .ok parsed)
    {threads : Threads}
    (threaded : ((shared.map parsed.withParams).getD parsed).threads before.next = .ok threads between) :
    ∃ finish : Registration × List Diagnostic → CompiledLoop,
      compileWith specs body shared (expandGoal body) before =
        (register (.ofLoop ((shared.map parsed.withParams).getD parsed).toTerm body) (makeProcedure threads body) >>=
          fun result => pure (finish result)) { before with next := between } := by
  refine ⟨fun result => {
    goal := threads.initialGoal result.1.name
    handle := result.1.handle
    name := result.1.name
    arity := threads.arity
    diagnostics := result.2 ++ Diagnostic.ofMismatch result.1.name
      (shared.bind fun shared => paramMismatch? shared parsed.declared)
    reused := !result.1.isNew }, ?_⟩
  simp only [compileWith, ofExcept_eq_pure read, pure_bind]
  simp only [Bind.bind, EStateM.bind, supplied, threaded]
  rfl

/-- A loop without threads cannot be compiled. -/
theorem compileWith_unthreaded (shared : Option VarSet) (read : LoopSpec.ofTerm specs = .ok parsed)
    (threaded : ((shared.map parsed.withParams).getD parsed).threads before.next = .error error between) :
    compileWith specs body shared (expandGoal body) before = .error error { before with next := between } := by
  simp only [compileWith, ofExcept_eq_pure read, pure_bind]
  simp only [Bind.bind, EStateM.bind, supplied, threaded]

/-- A loop whose iterators cannot be read cannot be compiled. -/
theorem compileWith_unread (shared : Option VarSet) (read : LoopSpec.ofTerm specs = .error error) :
    compileWith specs body shared (expandGoal body) before = .error error before := by
  simp only [compileWith, read]
  rfl

/-- A loop inside a goal is compiled with the variables that it shares. -/
theorem expandGoal_loop (known : specs.isVar = false) (outside : VarSet) (read : LoopSpec.ofTerm specs = .ok parsed) :
    expandGoal (.binary "do" specs body) outside before =
      (compileWith specs body (some (parsed.shared body outside)) (expandGoal body) >>= fun compiled =>
        pure (compiled.goal, compiled.diagnostics)) before := by
  rw [expandGoal, treatGoal_loop _ known, expandLoop, ofExcept_eq_pure read, pure_bind]
  rfl

end Compiler

/-- A loop that a store has a procedure for has threads, whose context corresponds to the one in which the body was
expanded. -/
theorem ProcedureEntry.Sound.exists_expansion {entries : List ProcedureEntry} {entry : ProcedureEntry}
    (sound : entry.Sound entries) {spec : LoopSpec} {body : Term} (signature : entry.signature = .ofLoop spec.toTerm body)
    {next after : Nat} {threads : Threads} (threaded : spec.threads next = .ok threads after)
    (below : ∀ id ∈ spec.occurrences ++ body.occurrences, id < next) :
    ∃ number start outside body' last, InjectiveOn number body.occurrences ∧
      (∀ id ∈ body.occurrences, number id ∈ outside ↔ id ∈ threads.context) ∧
      Expansion entries start (body.rename number) outside body' last := by
  obtain ⟨spec', source, source', threads', next', between', start, last, signature', below', threaded', later,
    expansion, _⟩ := sound
  obtain ⟨number, injective, rfl, rfl, rfl⟩ := exists_number_of_signature_eq (signature.symm.trans signature')
    threaded threaded' (fun id occurs => .inl (below id occurs)) (fun id occurs => .inl (below' id occurs))
  have distinct : InjectiveOn number (threads.occurrences ++ body.occurrences) :=
    injective.mono fun _ => List.mem_append_left _
  exact ⟨number, start, _, source', last, distinct.mono fun _ => List.mem_append_right _,
    fun id member => Threads.context_rename distinct member, expansion⟩

namespace Compiler

/-- A goal that has a variant that was expanded over a store is expanded with that store, and nothing is added to it. -/
theorem exists_expandGoal {procedures : Procedures} {goal : Term} {number : Nat → Nat} {outside outside' : VarSet}
    {next after : Nat} {expanded : Term}
    (expansion : Expansion procedures.entries next (goal.rename number) outside expanded after)
    (injective : InjectiveOn number goal.occurrences)
    (around : ∀ id ∈ goal.occurrences, number id ∈ outside ↔ id ∈ outside') (start : Nat) :
    ∃ treated last, expandGoal goal outside' ⟨start, procedures⟩ = .ok treated ⟨last, procedures⟩ := by
  induction goal using goalInduction generalizing number outside outside' next after expanded start with
  | modality name inner walked ih =>
    rw [Term.rename_unary] at expansion
    obtain ⟨_, _, inside⟩ := expansion.of_modality walked
    rw [Term.occurrences_unary] at injective around
    obtain ⟨treated, last, ended⟩ := ih inside injective around start
    rw [expandGoal] at ended ⊢
    rw [treatGoal_modality _ walked]
    simp only [Bind.bind, EStateM.bind, ended]
    exact ⟨_, _, rfl⟩
  | junction name left right walked ihLeft ihRight =>
    rw [Term.rename_binary] at expansion
    obtain ⟨_, _, between, _, first, second⟩ := expansion.of_junction walked
    obtain ⟨⟨injectiveLeft, aroundLeft⟩, injectiveRight, aroundRight⟩ := around_junction injective around
    obtain ⟨treated, middle, ended⟩ := ihLeft first injectiveLeft aroundLeft start
    obtain ⟨treated', last, ended'⟩ := ihRight second injectiveRight aroundRight middle
    rw [expandGoal] at ended ended' ⊢
    rw [treatGoal_junction _ walked]
    simp only [Bind.bind, EStateM.bind, ended, ended']
    exact ⟨_, _, rfl⟩
  | loop specs body solid ih =>
    rw [Term.rename_binary] at expansion
    have solid' : (specs.rename number).isVar = false := by rwa [Term.isVar_rename]
    obtain ⟨spec', threads', entry, between', read', threaded', registered, signature, _⟩ := expansion.of_loop solid'
    rw [Term.occurrences_binary] at injective around
    obtain ⟨spec, read⟩ := LoopSpec.exists_of_ofTerm_rename (injective.mono fun _ => List.mem_append_left _) read'
    rw [LoopSpec.ofTerm_rename number read, Except.ok.injEq] at read'
    subst read'
    rw [LoopSpec.rename_settled read injective around] at threaded' signature
    rcases LoopSpec.tandem_threads number (spec.withParams (spec.shared body outside')) start next with
      ⟨threads, between, _, _, threaded, _, _⟩ | ⟨_, _, _, _, _, failed, _⟩
    case inr =>
      rw [threaded'] at failed
      contradiction
    rw [LoopSpec.toTerm_rename, Signature.ofLoop_rename (by
      rw [LoopSpec.occurrences_toTerm]
      exact injective.mono fun id => LoopSpec.mem_occurrences_of_settled read)] at signature
    obtain ⟨finish, compiles⟩ :=
      @compileWith_eq specs ⟨start, procedures⟩ spec between body (some (spec.shared body outside')) read threads threaded
    rw [expandGoal_loop solid outside' read]
    cases found : procedures.registered?
        (.ofLoop (spec.withParams (spec.shared body outside')).toTerm body) with
    | none => exact absurd signature (Procedures.signature_ne_of_registered?_eq_none found registered)
    | some registration =>
      simp only [Bind.bind, EStateM.bind, Option.map_some, Option.getD_some] at compiles ⊢
      rw [register_found found] at compiles
      rw [compiles]
      exact ⟨_, _, rfl⟩
  | leaf goal leaf =>
    rw [expandGoal, treatGoal_leaf _ leaf]
    exact ⟨_, _, rfl⟩

/-- So the body of a loop that a store has a procedure for is expanded again. -/
theorem exists_expandGoal_of_found {procedures : Procedures} (sound : procedures.Sound) {spec : LoopSpec} {body : Term}
    {registration : Registration} (found : procedures.registered? (.ofLoop spec.toTerm body) = some registration)
    {start next : Nat} {threads : Threads} (threaded : spec.threads start = .ok threads next)
    (below : ∀ id ∈ spec.occurrences ++ body.occurrences, id < start) :
    ∃ treated last,
      expandGoal body threads.context ⟨next, procedures.issue⟩ = .ok treated ⟨last, procedures.issue⟩ := by
  obtain ⟨entry, there, signature, _⟩ := exists_entry_of_registered? found
  have issued : entry.Sound procedures.issue.entries := sound.entry entry (List.mem_of_getElem? there)
  obtain ⟨number, first, outside, body', last, injective, around, expansion⟩ :=
    issued.exists_expansion signature threaded below
  exact exists_expandGoal expansion injective around next

end Compiler

/-! ## Compiling side by side -/

/-- Results of compiling with two stores: both succeed or both fail for the same reason, and in either case the stores
have grown side by side. -/
inductive CompilesAlike (store store' : List ProcedureEntry) {α β : Type} :
    EStateM.Result LoopError Compilation α → EStateM.Result LoopError Compilation β → Prop
  | ok {value : α} {value' : β} {after after' : Compilation}
      (stores : Concordant store store' after.procedures.entries after'.procedures.entries) :
      CompilesAlike store store' (.ok value after) (.ok value' after')
  | error {error error' : LoopError} {after after' : Compilation} (same : error'.fault = error.fault)
      (stores : Concordant store store' after.procedures.entries after'.procedures.entries) :
      CompilesAlike store store' (.error error after) (.error error' after')

namespace CompilesAlike

variable {store store' : List ProcedureEntry} {α β γ δ : Type} {action : Compiler α} {action' : Compiler β}
  {before before' : Compilation}

theorem map {finish : α → γ} {finish' : β → δ} (alike : CompilesAlike store store' (action before) (action' before')) :
    CompilesAlike store store' ((action >>= fun value => pure (finish value)) before)
      ((action' >>= fun value => pure (finish' value)) before') := by
  simp only [Bind.bind, EStateM.bind]
  generalize action before = result, action' before' = result' at alike
  cases alike with
  | ok stores => exact .ok stores
  | error same stores => exact .error same stores

theorem symm {result : EStateM.Result LoopError Compilation α} {result' : EStateM.Result LoopError Compilation β}
    (alike : CompilesAlike store store' result result') : CompilesAlike store' store result' result := by
  cases alike with
  | ok stores => exact .ok stores.symm
  | error same stores => exact .error same.symm stores.symm

/-- Both succeed or both fail. -/
theorem ends (alike : CompilesAlike store store' (action before) (action' before')) :
    (∃ value after value' after', action before = .ok value after ∧ action' before' = .ok value' after' ∧
        Concordant store store' after.procedures.entries after'.procedures.entries) ∨
      ∃ error after error' after', action before = .error error after ∧ action' before' = .error error' after' ∧
        error'.fault = error.fault ∧ Concordant store store' after.procedures.entries after'.procedures.entries := by
  generalize action before = result, action' before' = result' at alike
  cases alike with
  | ok stores => exact .inl ⟨_, _, _, _, rfl, rfl, stores⟩
  | error same stores => exact .inr ⟨_, _, _, _, rfl, rfl, same, stores⟩

end CompilesAlike

namespace Compiler

variable {body specs : Term} {threads : Threads} {spec : LoopSpec} {number : Nat → Nat} {after : Compilation}
  {loop : CompiledLoop} {start : Nat}

/-- What is known of a loop that was compiled with its parameters as declared. -/
theorem exists_entry_of_compileLoop {before : Compilation} (sound : before.procedures.Sound)
    (below : ∀ id ∈ specs.occurrences ++ body.occurrences, id < before.next)
    (compiled : compileLoop specs body none before = .ok loop after) :
    after.procedures.Sound ∧ ∃ spec threads entry between, LoopSpec.ofTerm specs = .ok spec ∧
      spec.threads before.next = .ok threads between ∧ between ≤ after.next ∧ entry ∈ after.procedures.entries ∧
      entry.signature = .ofLoop spec.toTerm body ∧ loop.goal = threads.initialGoal entry.procedure.name := by
  have bounded : ∀ id ∈ specs.occurrences ++ body.occurrences ++ (none : Option VarSet).getD [], id < before.next := by
    simpa using below
  have reaches := reaches_compileLoop before sound bounded
  rw [Reaches, compiled] at reaches
  obtain ⟨_, soundAfter, _, spec, threads, entry, compiles⟩ := reaches
  obtain ⟨parsed, read, same⟩ := compiles.read
  obtain rfl : spec = parsed := same
  obtain ⟨between, threaded, later⟩ := compiles.threaded
  exact ⟨soundAfter, spec, threads, entry, between, read, threaded, later, List.mem_of_getElem? compiles.registered,
    compiles.signature, by rw [compiles.goal, compiles.name]⟩

variable {before before' : Compilation} (sound : before.procedures.Sound) (sound' : before'.procedures.Sound)

omit sound sound' in
/-- A loop that one store has a procedure for can be registered in another one if its body can be expanded there. -/
theorem register_alike_of_found {signature : Signature} {registration : Registration}
    (found : before.procedures.registered? signature = some registration)
    (make : String → Compiler (Procedure × List Diagnostic)) {treated : Treated} {last : Nat}
    (alike : CompilesAlike before.procedures.entries before'.procedures.entries
      (.ok treated ⟨last, before.procedures.issue⟩)
      (expandGoal body threads.context { before' with procedures := before'.procedures.issue })) :
    CompilesAlike before.procedures.entries before'.procedures.entries (register signature make before)
      (register signature (makeProcedure threads body) before') := by
  rw [register_found found]
  cases found' : before'.procedures.registered? signature with
  | some registration' =>
    rw [register_found found']
    exact .ok (.refl _ _)
  | none =>
    rw [register_made found']
    simp only [makeProcedure, Bind.bind, EStateM.bind]
    generalize expandGoal body threads.context { before' with procedures := before'.procedures.issue } = result at alike
    cases alike with
    | ok stores =>
      refine .ok ⟨fun entry member => .inl (.of_mem member), fun entry member => ?_⟩
      rcases Procedures.mem_entries_add member with member | same
      · exact stores.right entry member
      · obtain ⟨entry', there, same', _⟩ := exists_entry_of_registered? found
        exact .inr ⟨entry', List.mem_of_getElem? there, same'.trans same.symm⟩

include sound sound' in
/-- Loops with the same signature are registered alike, if their bodies are expanded alike. -/
theorem register_alike {spec' : LoopSpec} {body' : Term}
    (same : Signature.ofLoop spec.toTerm body = .ofLoop spec'.toTerm body') {start' : Nat} {threads' : Threads}
    (threaded : spec.threads start = .ok threads before.next)
    (threaded' : spec'.threads start' = .ok threads' before'.next)
    (below : ∀ id ∈ spec.occurrences ++ body.occurrences, id < start)
    (below' : ∀ id ∈ spec'.occurrences ++ body'.occurrences, id < start')
    (expands : ∀ number, InjectiveOn number body.occurrences → body.rename number = body' →
      (∀ id ∈ body.occurrences, number id ∈ threads'.context ↔ id ∈ threads.context) →
        CompilesAlike before.procedures.entries before'.procedures.entries
          (expandGoal body threads.context { before with procedures := before.procedures.issue })
          (expandGoal body' threads'.context { before' with procedures := before'.procedures.issue })) :
    CompilesAlike before.procedures.entries before'.procedures.entries
      (register (.ofLoop spec.toTerm body) (makeProcedure threads body) before)
      (register (.ofLoop spec'.toTerm body') (makeProcedure threads' body') before') := by
  obtain ⟨number, injective, rfl, rfl, rfl⟩ := exists_number_of_signature_eq same threaded threaded'
    (fun id occurs => .inl (below id occurs)) (fun id occurs => .inl (below' id occurs))
  have distinct : InjectiveOn number (threads.occurrences ++ body.occurrences) :=
    injective.mono fun _ => List.mem_append_left _
  have alike := expands number (distinct.mono fun _ => List.mem_append_right _) rfl
    fun id member => Threads.context_rename distinct member
  rw [← same]
  cases found : before.procedures.registered? (.ofLoop spec.toTerm body) with
  | some registration =>
    obtain ⟨treated, last, expanded⟩ := exists_expandGoal_of_found sound found threaded below
    rw [expanded] at alike
    exact register_alike_of_found found _ alike
  | none =>
    cases found' : before'.procedures.registered? (.ofLoop spec.toTerm body) with
    | some registration =>
      obtain ⟨treated, last, expanded⟩ := exists_expandGoal_of_found sound' (same ▸ found') threaded' below'
      rw [expanded] at alike
      exact (register_alike_of_found found' _ alike.symm).symm
    | none =>
      rw [register_made found, register_made found']
      simp only [makeProcedure, Bind.bind, EStateM.bind]
      generalize expandGoal body threads.context { before with procedures := before.procedures.issue } = result at alike
      generalize expandGoal (body.rename number) (threads.rename number).context
        { before' with procedures := before'.procedures.issue } = result' at alike
      cases alike with
      | ok stores => exact .ok (stores.add _ _ _)
      | error fault stores => exact .error fault stores

include sound sound' in
/-- Loops that are variants of each other are compiled alike, if their bodies are expanded alike. -/
theorem compileWith_alike {specs' : Term} {shared shared' : Option VarSet} {parsed parsed' : LoopSpec}
    (read : LoopSpec.ofTerm specs = .ok parsed) (read' : LoopSpec.ofTerm specs' = .ok parsed')
    (settled : (shared.map parsed.withParams).getD parsed = spec)
    (settled' : (shared'.map parsed'.withParams).getD parsed' = spec.rename number)
    (injective : InjectiveOn number (spec.occurrences ++ body.occurrences))
    (below : ∀ id ∈ spec.occurrences ++ body.occurrences, id < before.next)
    (below' : ∀ id ∈ spec.occurrences ++ body.occurrences, number id < before'.next)
    (expands : ∀ {number' : Nat → Nat} {outside outside' : VarSet}, InjectiveOn number' body.occurrences →
      (∀ id ∈ body.occurrences, number' id ∈ outside' ↔ id ∈ outside) → ∀ between between' : Compilation,
      between.procedures.Sound → between'.procedures.Sound → body.Below between.next →
      (body.rename number').Below between'.next →
        CompilesAlike between.procedures.entries between'.procedures.entries (expandGoal body outside between)
          (expandGoal (body.rename number') outside' between')) :
    CompilesAlike before.procedures.entries before'.procedures.entries
      (compileWith specs body shared (expandGoal body) before)
      (compileWith specs' (body.rename number) shared' (expandGoal (body.rename number)) before') := by
  rcases LoopSpec.tandem_threads number spec before.next before'.next with
    ⟨threads, between, threads', between', threaded, threaded', _⟩ | ⟨error, _, error', _, failed, failed', same⟩
  · have same : Signature.ofLoop spec.toTerm body = .ofLoop (spec.rename number).toTerm (body.rename number) := by
      rw [LoopSpec.toTerm_rename, Signature.ofLoop_rename]
      rwa [LoopSpec.occurrences_toTerm]
    have renamed : ∀ id ∈ (spec.rename number).occurrences ++ (body.rename number).occurrences, id < before'.next := by
      rw [LoopSpec.occurrences_rename, Term.occurrences_rename, ← List.map_append]
      exact List.forall_mem_map.mpr below'
    have issued : before.procedures.issue.Sound := (reaches_issueName sound).2.1
    have issued' : before'.procedures.issue.Sound := (reaches_issueName sound').2.1
    obtain ⟨finish, compiles⟩ := compileWith_eq body shared read (settled.symm ▸ threaded)
    obtain ⟨finish', compiles'⟩ := compileWith_eq (body.rename number) shared' read' (settled'.symm ▸ threaded')
    rw [compiles, compiles', settled, settled']
    refine CompilesAlike.map ?_
    have formed : (Compilation.mk between before.procedures).procedures.Sound := sound
    have formed' : (Compilation.mk between' before'.procedures).procedures.Sound := sound'
    refine register_alike formed formed' same threaded threaded' below renamed fun number' injective' bodies around => ?_
    rw [← bodies]
    refine expands injective' around ⟨between, before.procedures.issue⟩ ⟨between', before'.procedures.issue⟩ issued
      issued' (fun id member => ?_) (fun id member => ?_)
    · exact Nat.lt_of_lt_of_le (below id (List.mem_append_right _ member)) (LoopSpec.le_of_threads threaded)
    · rw [bodies] at member
      exact Nat.lt_of_lt_of_le (renamed id (List.mem_append_right _ member)) (LoopSpec.le_of_threads threaded')
  · rw [compileWith_unthreaded shared read (settled.symm ▸ failed),
      compileWith_unthreaded shared' read' (settled'.symm ▸ failed')]
    exact .error same (.refl _ _)

/-- Variants of a goal are expanded alike. -/
theorem expandGoal_alike {goal : Term} {outside outside' : VarSet} (injective : InjectiveOn number goal.occurrences)
    (around : ∀ id ∈ goal.occurrences, number id ∈ outside' ↔ id ∈ outside) (before before' : Compilation)
    (sound : before.procedures.Sound) (sound' : before'.procedures.Sound) (below : goal.Below before.next)
    (below' : (goal.rename number).Below before'.next) :
    CompilesAlike before.procedures.entries before'.procedures.entries (expandGoal goal outside before)
      (expandGoal (goal.rename number) outside' before') := by
  induction goal using goalInduction generalizing number outside outside' before before' with
  | modality name inner walked ih =>
    simp only [Term.below_unary, Term.rename_unary, Term.occurrences_unary] at injective around below below' ⊢
    have alike := ih injective around before before' sound sound' below below'
    rw [expandGoal, expandGoal, treatGoal_modality _ walked, treatGoal_modality _ walked]
    exact alike.map
  | junction name left right walked ihLeft ihRight =>
    obtain ⟨⟨injectiveLeft, aroundLeft⟩, injectiveRight, aroundRight⟩ := around_junction injective around
    simp only [Term.below_binary, Term.rename_binary] at below below' ⊢
    have first := ihLeft injectiveLeft aroundLeft before before' sound sound' below.1 below'.1
    have reaches := reaches_expandGoal before sound below.1 (outside.extend right.occurrences)
    have reaches' := reaches_expandGoal before' sound' below'.1 (outside'.extend (right.rename number).occurrences)
    rw [expandGoal, expandGoal, treatGoal_junction _ walked, treatGoal_junction _ walked]
    simp only [Bind.bind, EStateM.bind]
    rw [← expandGoal, ← expandGoal, ← expandGoal, ← expandGoal]
    rw [Reaches] at reaches reaches'
    generalize expandGoal left (outside.extend right.occurrences) before = result at first reaches
    generalize expandGoal (left.rename number) (outside'.extend (right.rename number).occurrences) before' = result'
      at first reaches'
    cases first with
    | error same stores => exact .error same stores
    | @ok treated treated' between between' stores =>
      obtain ⟨_, sound₁, taken, _⟩ := reaches
      obtain ⟨_, sound₁', taken', _⟩ := reaches'
      have second := ihRight injectiveRight aroundRight between between' sound₁ sound₁' (below.2.mono taken)
        (below'.2.mono taken')
      have grown := reaches_expandGoal between sound₁ (below.2.mono taken) (outside.extend left.occurrences)
      have grown' := reaches_expandGoal between' sound₁' (below'.2.mono taken')
        (outside'.extend (left.rename number).occurrences)
      rw [Reaches] at grown grown'
      dsimp only
      generalize expandGoal right (outside.extend left.occurrences) between = result at second grown
      generalize expandGoal (right.rename number) (outside'.extend (left.rename number).occurrences) between' = result'
        at second grown'
      cases second with
      | error same stores' => exact .error same (stores.trans stores' grown.1.subset grown'.1.subset)
      | ok stores' => exact .ok (stores.trans stores' grown.1.subset grown'.1.subset)
  | loop specs body solid ih =>
    have solid' : (specs.rename number).isVar = false := by rwa [Term.isVar_rename]
    rw [Term.Below, Term.occurrences_binary] at below
    rw [Term.Below, Term.occurrences_rename, Term.occurrences_binary] at below'
    rw [Term.occurrences_binary] at injective around
    rw [Term.rename_binary]
    cases read : LoopSpec.ofTerm specs with
    | error error =>
      obtain ⟨error', read', same⟩ := LoopSpec.fault_ofTerm_rename number read
      rw [expandGoal, expandGoal, treatGoal_loop _ solid, treatGoal_loop _ solid', expandLoop, expandLoop, read, read']
      exact .error same (.refl _ _)
    | ok spec =>
      have inside {id : Nat}
          (member : id ∈ (spec.withParams (spec.shared body outside)).occurrences ++ body.occurrences) :
          id ∈ specs.occurrences ++ body.occurrences := LoopSpec.mem_occurrences_of_settled read member
      have read' := LoopSpec.ofTerm_rename number read
      rw [expandGoal_loop solid outside read, expandGoal_loop solid' outside' read']
      refine CompilesAlike.map (compileWith_alike sound sound' read read' rfl
        (LoopSpec.rename_settled read injective around) (injective.mono fun id => inside)
        (fun id member => below id (inside member))
        (fun id member => below' _ (List.mem_map_of_mem (inside member))) ih)
  | leaf goal leaf =>
    rw [expandGoal, expandGoal, treatGoal_leaf _ leaf, treatGoal_leaf _ (leaf.rename number)]
    exact .ok (.refl _ _)

variable {specs body : Term} {number : Nat → Nat}

include sound sound' in
/-- Variants of a loop are compiled alike. -/
theorem compileLoop_alike (injective : InjectiveOn number (specs.occurrences ++ body.occurrences))
    (below : ∀ id ∈ specs.occurrences ++ body.occurrences, id < before.next)
    (below' : ∀ id ∈ specs.occurrences ++ body.occurrences, number id < before'.next) :
    CompilesAlike before.procedures.entries before'.procedures.entries (compileLoop specs body none before)
      (compileLoop (specs.rename number) (body.rename number) none before') := by
  rw [compileLoop, compileLoop]
  cases read : LoopSpec.ofTerm specs with
  | error error =>
    obtain ⟨error', read', same⟩ := LoopSpec.fault_ofTerm_rename number read
    rw [compileWith_unread none read, compileWith_unread none read']
    exact .error same (.refl _ _)
  | ok spec =>
    rw [← LoopSpec.occurrences_of_ofTerm read] at injective below below'
    exact compileWith_alike sound sound' read (LoopSpec.ofTerm_rename number read) rfl rfl injective below below'
      expandGoal_alike

include sound sound' in
/-- Variants of a loop that are compiled with two stores are run by goals that are counterparts. -/
theorem counterpart_compileLoop {allowed : String → Prop} (ordinary : Ordinary allowed) (named : specs.Named allowed)
    (namedBody : body.Named allowed) (injective : InjectiveOn number (specs.occurrences ++ body.occurrences))
    (below : ∀ id ∈ specs.occurrences ++ body.occurrences, id < before.next)
    (below' : ∀ id ∈ specs.occurrences ++ body.occurrences, number id < before'.next) {loop' : CompiledLoop}
    {after' : Compilation} (compiled : compileLoop specs body none before = .ok loop after)
    (compiled' : compileLoop (specs.rename number) (body.rename number) none before' = .ok loop' after') :
    Counterpart (Renamed allowed (shift number before.next before'.next))
        (SameLoop allowed after.procedures.entries after'.procedures.entries) loop.goal loop'.goal ∧
      ∃ taken, before.next + taken ≤ after.next ∧ before'.next + taken ≤ after'.next ∧
        ∀ id ∈ loop.goal.occurrences, id ∈ specs.occurrences ∨ (before.next ≤ id ∧ id < before.next + taken) := by
  obtain ⟨soundAfter, parsed, threads, entry, between, read, threaded, later, registered, signature, goal⟩ :=
    exists_entry_of_compileLoop sound below compiled
  have renamed : ∀ id ∈ (specs.rename number).occurrences ++ (body.rename number).occurrences, id < before'.next := by
    simpa [or_imp, forall_and] using below'
  obtain ⟨soundAfter', parsed', threads', entry', between', read', threaded', later', registered', signature', goal'⟩ :=
    exists_entry_of_compileLoop sound' renamed compiled'
  rw [LoopSpec.ofTerm_rename number read, Except.ok.injEq] at read'
  subst read'
  have inside {id : Nat} (member : id ∈ parsed.occurrences) : id ∈ specs.occurrences :=
    LoopSpec.mem_occurrences_of_ofTerm read member
  rw [LoopSpec.threads_shift number threaded
    (fun id member => below id (List.mem_append_left _ (inside member)))] at threaded'
  injection threaded' with same ended
  have namedSpec := LoopSpec.named_of_ofTerm ordinary read named
  have pair : SameLoop allowed after.procedures.entries after'.procedures.entries entry entry' := by
    refine ⟨registered, registered', ?_, ?_⟩
    · rw [signature, signature', LoopSpec.toTerm_rename, Signature.ofLoop_rename]
      rw [LoopSpec.occurrences_toTerm]
      refine injective.mono fun id member => ?_
      rcases List.mem_append.mp member with member | member
      · exact List.mem_append_left _ (inside member)
      · exact List.mem_append_right _ member
    · rw [signature]
      exact (Signature.named_ofLoop ordinary).mpr ⟨namedSpec, namedBody⟩
  have taken := LoopSpec.le_of_threads threaded
  rw [goal, goal', ← same]
  refine ⟨Threads.counterpart_initialGoal ordinary soundAfter.generated soundAfter'.generated
    (LoopSpec.mentions_threads ordinary namedSpec _ _ _ threaded) _ pair, between - before.next, by omega, by omega,
    fun id occurs => ?_⟩
  rcases LoopSpec.mem_occurrences_of_threads threaded (Threads.mem_occurrences_of_initialGoal occurs) with
    old | ⟨lower, upper⟩
  · exact .inl (inside old)
  · exact .inr ⟨lower, by omega⟩

end Compiler

end HornLoops
