import HornLoops.Proofs.Loop.Store

/-!
# The store of procedures over time

However a compiler is called, the store of procedures stays in order: names and signatures are used once, a procedure
is found under its signature and under its name, and what is in the store stays where it is. Calls may fail on the
way, may find procedures that are already there and may register procedures of inner loops before their own; the
argument is the same for all of them, since a name is given out before anything inside is compiled and every name that
is given out later is different.
-/

namespace HornLoops

/-! ## The number of arguments -/

namespace LoopIterator

/-- The number of argument positions of an iterator. -/
def width : LoopIterator → Nat
  | .forEach _ _ => 1
  | .forEachArg _ _ _ => 3
  | .range _ first last _ => if first.constant?.isSome && last.constant?.isSome then 1 else 2
  | .count _ first max => if first.constant?.isSome && max.constant?.isSome then 1 else 2
  | .fromTo _ _ _ last => if last.isGround then 1 else 2
  | .param vars => vars.length

/-- The number of positions does not depend on the numbers of variables. -/
@[simp] theorem width_rename (number : Nat → Nat) (iterator : LoopIterator) :
    (iterator.rename number).width = iterator.width := by
  cases iterator <;> simp [rename, width]

/-- The threads of an iterator have its positions. -/
theorem arity_threads (iterator : LoopIterator) :
    Yields (fun threads => threads.arity = iterator.width) iterator.threads := by
  intro next threads after threaded
  cases Draws.of_threads threaded <;>
    simp_all [Threads.arity, width, argumentThreads, closedCounter, openCounter, threadParams]

end LoopIterator

namespace LoopSpec

/-- The number of arguments of the calls of a loop. -/
def width (spec : LoopSpec) : Nat := (spec.iterators.map LoopIterator.width).sum

@[simp] theorem width_rename (number : Nat → Nat) (spec : LoopSpec) :
    (spec.rename number).width = spec.width := by
  simp [width, Function.comp_def]

/-- The threads of a loop have as many arguments as its iterators have positions. -/
theorem arity_threads (spec : LoopSpec) :
    Yields (fun threads => threads.arity = spec.width) spec.threads := by
  have all (iterators : List LoopIterator) :
      Yields (fun threads => threads.arity = (iterators.map LoopIterator.width).sum)
        (Threads.ofIterators iterators) := by
    induction iterators with
    | nil => exact .pure rfl
    | cons iterator iterators ih =>
      refine iterator.arity_threads.bind fun first one => ih.bind fun rest others => .pure ?_
      rw [List.map_cons, List.sum_cons, ← one, ← others]
      simp [Threads.arity, Threads.append]
  exact all spec.iterators

/-- Loops with the same signature have the same number of arguments. -/
theorem width_eq_of_signature_eq {spec spec' : LoopSpec} {body body' : Term}
    (same : Signature.ofLoop spec.toTerm body = Signature.ofLoop spec'.toTerm body') :
    spec.width = spec'.width := by
  obtain ⟨number, _, renamed⟩ :=
    Term.exists_rename_of_normalize_eq (Term.normalize_eq_of_term_eq (congrArg Signature.shape same))
  simp only [Term.binary, Term.rename_compound, Term.compound.injEq, true_and] at renamed
  have specs : spec.rename number = spec' := toTerm_injective ((spec.toTerm_rename number).trans renamed.1)
  rw [← specs, width_rename]

end LoopSpec

/-! ## Stores in order -/

/-- A registered procedure was made from the threads of a loop with its signature. -/
def ProcedureEntry.Made (entry : ProcedureEntry) : Prop :=
  ∃ (spec : LoopSpec) (body body' : Term) (threads : Threads) (start finish : Nat),
    entry.signature = .ofLoop spec.toTerm body ∧ spec.threads start = .ok threads finish ∧
      entry.procedure = threads.procedure entry.procedure.name body'

namespace Procedures

/-- A store in order. -/
structure Ordered (procedures : Procedures) : Prop where
  /-- Names are those that were given out. -/
  named : ∀ entry ∈ procedures.entries, ∃ number < procedures.issued, entry.procedure.name = nameOf number
  /-- No name is used twice. -/
  names : (procedures.entries.map (·.procedure.name)).Nodup
  /-- No signature is used twice. -/
  signatures : (procedures.entries.map (·.signature)).Nodup
  /-- Every procedure was made for its signature. -/
  made : ∀ entry ∈ procedures.entries, entry.Made

theorem ordered_empty : Ordered {} := ⟨by simp, by simp, by simp, by simp⟩

variable {procedures : Procedures} {signature : Signature} {handle : Nat}

/-- A procedure is looked up by its signature. -/
theorem Ordered.lookup?_iff (ordered : procedures.Ordered) : procedures.lookup? signature = some handle ↔
      ∃ procedure, procedures.entries[handle]? = some ⟨signature, procedure⟩ := by
  rw [lookup?, List.findIdx?_eq_some_iff_getElem]
  constructor
  · rintro ⟨inside, holds, _⟩
    have same : procedures.entries[handle].signature = signature := by simpa using holds
    exact ⟨procedures.entries[handle].procedure, by rw [List.getElem?_eq_getElem inside, ← same]⟩
  · rintro ⟨procedure, there⟩
    obtain ⟨inside, entry⟩ := List.getElem?_eq_some_iff.mp there
    refine ⟨inside, by simp [entry], fun earlier before => ?_⟩
    have distinct := List.pairwise_iff_getElem.mp ordered.signatures earlier handle
      (by rw [List.length_map]; omega) (by rw [List.length_map]; omega) before
    simpa [entry] using distinct

/-- A procedure is found under its name. -/
theorem Ordered.named?_eq (ordered : procedures.Ordered) {procedure : Procedure}
    (there : procedures.get? handle = some procedure) : procedures.named? procedure.name = some procedure := by
  obtain ⟨entry, here, rfl⟩ := Option.map_eq_some_iff.mp there
  exact named?_eq_of_nodup ordered.names (List.mem_of_getElem? here)

/-- A signature without a procedure is not used. -/
theorem signature_ne_of_registered?_eq_none (missing : procedures.registered? signature = none)
    {entry : ProcedureEntry} (member : entry ∈ procedures.entries) : entry.signature ≠ signature := by
  intro same
  obtain ⟨handle, first⟩ : ∃ handle, procedures.lookup? signature = some handle := by
    rw [lookup?, ← Option.isSome_iff_exists, List.findIdx?_isSome, List.any_eq_true]
    exact ⟨entry, member, by simpa using same⟩
  obtain ⟨inside, _⟩ := List.findIdx?_eq_some_iff_getElem.mp first
  simp [registered?, first, get?, List.getElem?_eq_getElem inside] at missing

/-! ## Steps -/

/-- What happens to a store in order: it is extended and stays in order. -/
def Maintains (before after : Procedures) : Prop := before.Ordered → before.Extends after ∧ after.Ordered

/-- Giving out a name leaves the procedures alone. -/
theorem maintains_issue (procedures : Procedures) : procedures.Maintains procedures.issue := by
  intro ordered
  refine ⟨⟨Nat.le_succ _, [], (List.append_nil _).symm, by simp⟩, ?_, ordered.names, ordered.signatures, ordered.made⟩
  intro entry member
  obtain ⟨number, given, name⟩ := ordered.named entry member
  exact ⟨number, Nat.lt_succ_of_lt given, name⟩

/-- A procedure may be added under a name that was given out before, whatever was added since. -/
theorem maintains_add {before after : Procedures} (grown : before.issue.Maintains after) (entry : ProcedureEntry)
    (name : entry.procedure.name = nameOf before.issued) (made : entry.Made) :
    before.Maintains (after.add entry.signature entry.procedure).2 := by
  intro ordered
  obtain ⟨issues, orderedIssue⟩ := before.maintains_issue ordered
  obtain ⟨grows, orderedAfter⟩ := grown orderedIssue
  have given : before.issued < after.issued := grows.issued
  have grown := issues.trans grows
  rw [add]
  cases missing : after.registered? entry.signature with
  | some registration => exact ⟨grown, orderedAfter⟩
  | none =>
    obtain ⟨_, added, entries, later⟩ := grows
    -- Names from before are smaller than the one of the procedure, and names given out since are larger.
    have unused : ∀ other ∈ after.entries, other.procedure.name ≠ entry.procedure.name := by
      intro other member same
      rw [entries] at member
      rw [name] at same
      rcases List.mem_append.mp member with member | member
      · obtain ⟨number, low, named⟩ := ordered.named other member
        have clash := nameOf_injective (named.symm.trans same)
        omega
      · obtain ⟨number, low, _, named⟩ := later other member
        have clash := nameOf_injective (named.symm.trans same)
        have issued : before.issue.issued = before.issued + 1 := rfl
        omega
    refine ⟨⟨grown.issued, ?_⟩, ?_, ?_, ?_, ?_⟩
    · obtain ⟨_, more, grown, names⟩ := grown
      refine ⟨more ++ [entry], by simp [grown], fun other member => ?_⟩
      rcases List.mem_append.mp member with member | member
      · exact names other member
      · rw [List.mem_singleton.mp member]
        exact ⟨before.issued, Nat.le_refl _, given, name⟩
    · intro other member
      rcases List.mem_append.mp member with member | member
      · exact orderedAfter.named other member
      · rw [List.mem_singleton.mp member]
        exact ⟨before.issued, given, name⟩
    · rw [List.map_append]
      refine orderedAfter.names.append (List.nodup_singleton _) ?_
      simpa [List.Disjoint] using unused
    · rw [List.map_append]
      refine orderedAfter.signatures.append (List.nodup_singleton _) ?_
      simpa [List.Disjoint] using fun other member => signature_ne_of_registered?_eq_none missing member
    · intro other member
      rcases List.mem_append.mp member with member | member
      · exact orderedAfter.made other member
      · rw [List.mem_singleton.mp member]
        exact made

end Procedures

open Compiler

/-- Compiling keeps stores in order. -/
theorem Compiler.kept_maintains : Kept Procedures.Maintains where
  refl procedures ordered := ⟨.refl procedures, ordered⟩
  trans first second ordered :=
    have between := first ordered
    have after := second between.2
    ⟨between.1.trans after.1, after.2⟩
  issued grown ordered :=
    have issue := Procedures.maintains_issue _ ordered
    have after := grown issue.2
    ⟨issue.1.trans after.1, after.2⟩
  added := by
    intro spec threads start finish threaded before after body body' _ grown
    exact Procedures.maintains_add grown ⟨_, _⟩ rfl
      ⟨spec, body, body', threads, start, finish, rfl, threaded, rfl⟩

/-! ## Calls of a compiler -/

/-- What a compiler can be asked for. -/
inductive CompilerCall where
  /-- To compile a loop. -/
  | loop (specs body : Term) (shared : Option VarSet)
  /-- To compile the loops of a goal. -/
  | goal (term : Term) (outside : VarSet)
  /-- To compile the loops of a clause. -/
  | clause (term : Term)

/-- The store after a call that takes variables from a number on, whether it fails or not. -/
def CompilerCall.storeAfter (procedures : Procedures) (next : Nat) : CompilerCall → Procedures
  | .loop specs body shared => Compiler.storeAfter (compileLoop specs body shared) ⟨next, procedures⟩
  | .goal term outside => Compiler.storeAfter (expandGoal term outside) ⟨next, procedures⟩
  | .clause term => Compiler.storeAfter (expandClause term) ⟨next, procedures⟩

/-- The store after some calls, each with its own variables. -/
def Procedures.afterCalls (procedures : Procedures) (calls : List (Nat × CompilerCall)) : Procedures :=
  calls.foldl (fun procedures call => call.2.storeAfter procedures call.1) procedures

/-- A call keeps a store in order. -/
theorem CompilerCall.maintains_storeAfter (call : CompilerCall) (procedures : Procedures) (next : Nat) :
    procedures.Maintains (call.storeAfter procedures next) := by
  cases call with
  | loop specs body shared => exact kept_maintains.compileLoop specs body shared ⟨next, procedures⟩
  | goal term outside => exact kept_maintains.expandGoal term outside ⟨next, procedures⟩
  | clause term => exact kept_maintains.expandClause term ⟨next, procedures⟩

/-- Any number of calls keep a store in order. -/
theorem Procedures.maintains_afterCalls (procedures : Procedures) (calls : List (Nat × CompilerCall)) :
    procedures.Maintains (procedures.afterCalls calls) := by
  induction calls generalizing procedures with
  | nil => exact kept_maintains.refl procedures
  | cons call calls ih => exact kept_maintains.trans (call.2.maintains_storeAfter procedures call.1) (ih _)

/-! ## Results of compiling -/

namespace Compiler

variable {α : Type} {before after : Compilation}

variable {body specs : Term} {value : α} {shared : Option VarSet} {loop : CompiledLoop}

theorem eq_of_ofExcept {result : Except LoopError α}
    (ended : (MonadExcept.ofExcept result : Compiler α) before = .ok value after) :
    result = .ok value ∧ before = after := by
  cases result with
  | error error => contradiction
  | ok value' =>
    obtain ⟨rfl, rfl⟩ := ended
    exact ⟨rfl, rfl⟩

/-- Variables are taken, and nothing is registered. -/
theorem eq_of_supplied {action : Supplied LoopError α} (ended : supplied action before = .ok value after) :
    action before.next = .ok value after.next ∧ after = { before with next := after.next } := by
  unfold supplied at ended
  match taken : action before.next with
  | .error error finish => simp [taken] at ended
  | .ok value' finish =>
    rw [taken] at ended
    obtain ⟨rfl, rfl⟩ := ended
    exact ⟨rfl, rfl⟩

/-- A registration that succeeds points to a procedure with the signature. -/
theorem registers_of_register {signature : Signature} {make : String → Compiler (Procedure × List α)} {result : Registration × List α}
    (ended : register signature make before = .ok result after) :
    Registers after.procedures signature result.1 := by
  match found : before.procedures.registered? signature with
  | some registration =>
    rw [register_found found] at ended
    obtain ⟨rfl, rfl⟩ : (registration, []) = result ∧ before = after := by
      injection ended with value state
      exact ⟨value, state⟩
    exact exists_entry_of_registered? found
  | none =>
    rw [register_made found] at ended
    match made : make (Procedures.nameOf before.procedures.issued)
        { before with procedures := before.procedures.issue } with
    | .error error between => simp [made] at ended
    | .ok (procedure, findings) between =>
      rw [made] at ended
      injection ended with value state
      subst value state
      exact registers_add between.procedures signature procedure

/-- A loop that was compiled starts its threads, through a procedure that is registered for it. -/
theorem exists_goal_of_compileLoop (compiled : compileLoop specs body shared before = .ok loop after) :
    ∃ parsed threads finish, LoopSpec.ofTerm specs = .ok parsed ∧
      ((shared.map parsed.withParams).getD parsed).threads before.next = .ok threads finish ∧
      loop.goal = threads.initialGoal loop.name ∧ loop.arity = threads.arity ∧
      ∃ entry, after.procedures.entries[loop.handle]? = some entry ∧
        entry.signature = .ofLoop ((shared.map parsed.withParams).getD parsed).toTerm body ∧
        entry.procedure.name = loop.name := by
  obtain ⟨parsed, _, reads, afterRead⟩ := exists_of_bind compiled
  obtain ⟨threads, _, threads', afterThreads⟩ := exists_of_bind afterRead
  obtain ⟨⟨registration, findings⟩, _, registered, ended⟩ := exists_of_bind afterThreads
  obtain ⟨rfl, rfl⟩ := ended
  obtain ⟨read, rfl⟩ := eq_of_ofExcept reads
  exact ⟨parsed, threads, _, read, (eq_of_supplied threads').1, rfl, rfl, registers_of_register registered⟩

/-- What a loop that was compiled refers to. -/
theorem exists_of_compileLoop (compiled : compileLoop specs body shared before = .ok loop after) :
    ∃ parsed threads finish entry, LoopSpec.ofTerm specs = .ok parsed ∧
      ((shared.map parsed.withParams).getD parsed).threads before.next = .ok threads finish ∧
      after.procedures.entries[loop.handle]? = some entry ∧
      entry.signature = .ofLoop ((shared.map parsed.withParams).getD parsed).toTerm body ∧
      entry.procedure.name = loop.name ∧ loop.arity = threads.arity := by
  obtain ⟨parsed, threads, finish, read, threaded, _, arity, entry, there, signature, name⟩ :=
    exists_goal_of_compileLoop compiled
  exact ⟨parsed, threads, finish, entry, read, threaded, there, signature, name, arity⟩

end Compiler

/-! ## The whole -/

namespace Procedures

/-- What can be relied on in a store. -/
structure Consistent (procedures : Procedures) : Prop where
  /-- Names are pairwise distinct. -/
  names : (procedures.toList.map (·.name)).Nodup
  /-- The procedure that is looked up for a signature is the one that was made for it. -/
  registered : ∀ signature handle, procedures.lookup? signature = some handle →
    ∃ entry ∈ procedures.entries, procedures.get? handle = some entry.procedure ∧ entry.signature = signature ∧
      entry.Made
  /-- Different signatures have different procedures. -/
  handles : ∀ signature signature' handle, procedures.lookup? signature = some handle →
    procedures.lookup? signature' = some handle → signature = signature'
  /-- Every procedure is found under its name. -/
  found : ∀ handle < procedures.size, ∃ procedure, procedures.get? handle = some procedure ∧
    procedures.named? procedure.name = some procedure

/-- A later store has everything that an earlier one has. -/
structure Retains (earlier later : Procedures) : Prop where
  /-- Procedures stay at their positions. -/
  handles : ∀ handle procedure, earlier.get? handle = some procedure → later.get? handle = some procedure
  /-- Signatures stay with their procedures. -/
  signatures : ∀ signature handle, earlier.lookup? signature = some handle → later.lookup? signature = some handle
  /-- Names stay with their procedures. -/
  names : ∀ name procedure, earlier.named? name = some procedure → later.named? name = some procedure

theorem Ordered.consistent {procedures : Procedures} (ordered : procedures.Ordered) : procedures.Consistent where
  names := by simpa [toList, Function.comp_def] using ordered.names
  registered signature handle first := by
    obtain ⟨procedure, there⟩ := ordered.lookup?_iff.mp first
    have member := List.mem_of_getElem? there
    exact ⟨_, member, by simp [get?, there], rfl, ordered.made _ member⟩
  handles signature signature' handle first first' := by
    obtain ⟨procedure, there⟩ := ordered.lookup?_iff.mp first
    obtain ⟨procedure', there'⟩ := ordered.lookup?_iff.mp first'
    rw [there, Option.some.injEq, ProcedureEntry.mk.injEq] at there'
    exact there'.1
  found handle inside := by
    obtain ⟨entry, there⟩ : ∃ entry, procedures.entries[handle]? = some entry :=
      ⟨_, List.getElem?_eq_getElem inside⟩
    have there' : procedures.get? handle = some entry.procedure := by simp [get?, there]
    exact ⟨entry.procedure, there', ordered.named?_eq there'⟩

/-- Procedures that are added at the end change nothing. -/
theorem Retains.of_isPrefix {earlier later : Procedures} (grown : earlier.entries <+: later.entries) :
    earlier.Retains later := by
  obtain ⟨added, entries⟩ := grown
  refine ⟨?_, ?_, ?_⟩
  · intro handle procedure there
    obtain ⟨entry, here, rfl⟩ := Option.map_eq_some_iff.mp there
    have inside := (List.getElem?_eq_some_iff.mp here).1
    simp [get?, ← entries, List.getElem?_append_left inside, here]
  · intro signature handle first
    rw [lookup?] at first ⊢
    rw [← entries, List.findIdx?_append, first]
    rfl
  · intro name procedure there
    rw [named?, toList] at there ⊢
    rw [← entries, List.map_append, List.find?_append, there]
    rfl

end Procedures

/-- The loop `foreach(V2, V0) do true`. -/
def innerLoop : Term := .binary "do" (.build "foreach" [.var 2, .var 0]) .truth

/-- A call that fails: in the body of a loop there is an inner loop and another one without iterators. -/
def failingCall : CompilerCall :=
  .loop (.build "foreach" [.var 0, .var 1]) (.both innerLoop (.binary "do" (.atom "foreach") .truth)) (some [])

end HornLoops
