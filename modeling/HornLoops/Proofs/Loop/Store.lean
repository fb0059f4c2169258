import HornLoops.Loop.Compile
import HornLoops.Proofs.Loop.Renaming
import HornLoops.Proofs.Loop.Traversal

/-!
# What compiling leaves behind

Compiling only ever adds to the store of procedures. Every procedure in the store was made from a loop with its
signature, from the threads of the loop and from its body with the loops inside replaced, and no two procedures have the
same name. Steps of compilation keep this whether they fail or not, so it holds for every store that they build.
-/

namespace HornLoops

/-! ## Names -/

namespace Procedures

theorem toList_nameOf (number : Nat) :
    (nameOf number).toList = ['d', 'o', '_', '_'] ++ Nat.toDigits 10 number := by
  have digits : (toString number).toList = Nat.toDigits 10 number := Nat.toList_repr
  rw [nameOf, String.toList_append, digits]
  rfl

/-- Different numbers have different names. -/
theorem nameOf_injective {left right : Nat} (same : nameOf left = nameOf right) : left = right := by
  have chars := congrArg String.toList same
  rw [toList_nameOf, toList_nameOf, List.append_cancel_left_eq] at chars
  rw [← Nat.ofDigitChars_toDigits (b := 10) (n := left) (by decide) (by decide), chars,
    Nat.ofDigitChars_toDigits (by decide) (by decide)]

end Procedures

/-! ## Expanded goals -/

/-- A goal and the same goal with its loops replaced by calls of procedures, where variables are taken from a number
up to another. -/
inductive Expansion (entries : List ProcedureEntry) : Nat → Term → VarSet → Term → Nat → Prop
  | modality {name : String} {inner inner' : Term} {outside : VarSet} {next after : Nat}
      (walked : isModality name = true) (inside : Expansion entries next inner outside inner' after) :
      Expansion entries next (.unary name inner) outside (.unary name inner') after
  | junction {name : String} {left right left' right' : Term} {outside : VarSet}
      {next between after : Nat} (walked : isJunction name = true)
      (first : Expansion entries next left (outside.extend right.occurrences) left' between)
      (second : Expansion entries between right (outside.extend left.occurrences) right' after) :
      Expansion entries next (.binary name left right) outside (.binary name left' right') after
  | loop {specs body : Term} {outside : VarSet} {spec : LoopSpec} {threads : Threads}
      {entry : ProcedureEntry} {next between after : Nat} (known : specs.isVar = false)
      (read : LoopSpec.ofTerm specs = .ok spec)
      (threaded : (spec.withParams (spec.shared body outside)).threads next = .ok threads between)
      (registered : entry ∈ entries)
      (signature :
        entry.signature = .ofLoop (spec.withParams (spec.shared body outside)).toTerm body)
      (later : between ≤ after) :
      Expansion entries next (.binary "do" specs body) outside
        (threads.initialGoal entry.procedure.name) after
  | leaf {goal : Term} {outside : VarSet} {next : Nat} (leaf : IsLeaf goal) :
      Expansion entries next goal outside goal next

variable {few many : List ProcedureEntry} {entry : ProcedureEntry} {procedures : Procedures}

/-- More procedures do no harm. -/
theorem Expansion.mono (subset : few ⊆ many) {next after : Nat} {goal goal' : Term} {outside : VarSet}
    (expansion : Expansion few next goal outside goal' after) : Expansion many next goal outside goal' after := by
  induction expansion with
  | modality walked _ ih => exact .modality walked ih
  | junction walked _ _ ihLeft ihRight => exact .junction walked ihLeft ihRight
  | loop known read threaded registered signature later =>
    exact .loop known read threaded (subset registered) signature later
  | leaf leaf => exact .leaf leaf

/-- What stands behind a registered procedure: a loop with its signature, whose threads and expanded body it was made
from. -/
def ProcedureEntry.Sound (entries : List ProcedureEntry) (entry : ProcedureEntry) : Prop :=
  ∃ (spec : LoopSpec) (body body' : Term) (threads : Threads) (next between start after : Nat),
    entry.signature = .ofLoop spec.toTerm body ∧
    (∀ id ∈ spec.occurrences ++ body.occurrences, id < next) ∧
    spec.threads next = .ok threads between ∧ between ≤ start ∧
    Expansion entries start body threads.context body' after ∧
    entry.procedure = threads.procedure entry.procedure.name body'

theorem ProcedureEntry.Sound.mono (sound : entry.Sound few) (subset : few ⊆ many) : entry.Sound many := by
  obtain ⟨spec, body, body', threads, next, between, start, after, signature, below, threaded, later,
    expansion, made⟩ := sound
  exact ⟨spec, body, body', threads, next, between, start, after, signature, below, threaded, later,
    expansion.mono subset, made⟩

/-- What holds for every store of procedures. -/
structure Procedures.Sound (procedures : Procedures) : Prop where
  /-- There is a loop behind every procedure. -/
  entry : ∀ entry ∈ procedures.entries, entry.Sound procedures.entries
  /-- Names are those that were given out. -/
  named : ∀ entry ∈ procedures.entries, ∃ number < procedures.issued,
    entry.procedure.name = Procedures.nameOf number
  /-- No two procedures have the same name. -/
  distinct : (procedures.entries.map (·.procedure.name)).Nodup

/-- The empty store is sound. -/
theorem Procedures.Sound.empty : Procedures.Sound {} := ⟨by simp, by simp, by simp⟩

/-- Where no two procedures have the same name, a procedure is found under its name. -/
theorem Procedures.named?_eq_of_nodup (distinct : (procedures.entries.map (·.procedure.name)).Nodup)
    (member : entry ∈ procedures.entries) : procedures.named? entry.procedure.name = some entry.procedure := by
  rw [named?, toList]
  generalize procedures.entries = entries at member distinct
  induction entries with
  | nil => simp at member
  | cons head tail ih =>
    rw [List.map_cons, List.nodup_cons] at distinct
    rcases List.mem_cons.mp member with rfl | member
    · simp
    · have differ : head.procedure.name ≠ entry.procedure.name := by
        intro same
        exact distinct.1 (same ▸ List.mem_map_of_mem member)
      simpa [differ] using ih member distinct.2

/-- A procedure is found under its name. -/
theorem Procedures.Sound.named?_eq (sound : procedures.Sound) (member : entry ∈ procedures.entries) :
    procedures.named? entry.procedure.name = some entry.procedure :=
  named?_eq_of_nodup sound.distinct member

/-! ## Steps of compilation -/

/-- What a step of compilation does to the store. -/
structure Procedures.Extends (before after : Procedures) : Prop where
  /-- Names are only given out. -/
  issued : before.issued ≤ after.issued
  /-- Procedures are only added, under names that were given out on the way. -/
  entries : ∃ added, after.entries = before.entries ++ added ∧
    ∀ entry ∈ added, ∃ number, before.issued ≤ number ∧ number < after.issued ∧
      entry.procedure.name = nameOf number

namespace Procedures.Extends

theorem refl (procedures : Procedures) : procedures.Extends procedures :=
  ⟨Nat.le_refl _, [], by simp, by simp⟩

theorem trans {first second third : Procedures} (left : first.Extends second)
    (right : second.Extends third) : first.Extends third := by
  obtain ⟨issued, added, entries, names⟩ := left
  obtain ⟨issued', added', entries', names'⟩ := right
  refine ⟨Nat.le_trans issued issued', added ++ added',
    by rw [entries', entries, List.append_assoc], ?_⟩
  intro entry member
  rcases List.mem_append.mp member with member | member
  · obtain ⟨number, low, high, name⟩ := names entry member
    exact ⟨number, low, by omega, name⟩
  · obtain ⟨number, low, high, name⟩ := names' entry member
    exact ⟨number, by omega, high, name⟩

theorem isPrefix {before after : Procedures} (grown : before.Extends after) :
    before.entries <+: after.entries := by
  obtain ⟨_, added, entries, _⟩ := grown
  exact ⟨added, entries.symm⟩

theorem subset {before after : Procedures} (grown : before.Extends after) :
    before.entries ⊆ after.entries := grown.isPrefix.subset

end Procedures.Extends

namespace Compiler

/-- A step of compilation extends the store and keeps it sound, and if it succeeds, it has only taken variables and
something holds of its result. -/
def Reaches {α : Type} (action : Compiler α) (before : Compilation)
    (holds : α → Compilation → Prop) : Prop :=
  match action before with
  | .ok value after =>
    before.procedures.Extends after.procedures ∧ after.procedures.Sound ∧
      before.next ≤ after.next ∧ holds value after
  | .error _ after => before.procedures.Extends after.procedures ∧ after.procedures.Sound

namespace Reaches

variable {α β : Type} {before : Compilation}

variable {holds : α → Compilation → Prop} {action : Compiler α}

theorem pure (sound : before.procedures.Sound) {value : α} (result : holds value before) :
    Reaches (Pure.pure value) before holds :=
  ⟨.refl _, sound, Nat.le_refl _, result⟩

theorem ofExcept (sound : before.procedures.Sound) (value : Except LoopError α) :
    Reaches (MonadExcept.ofExcept value : Compiler α) before
      fun result after => value = .ok result ∧ before = after := by
  cases value with
  | ok value => exact ⟨.refl _, sound, Nat.le_refl _, rfl, rfl⟩
  | error error => exact ⟨.refl _, sound⟩

theorem bind {next : α → Compiler β} {holds' : β → Compilation → Prop} (first : Reaches action before holds)
    (rest : ∀ value between, before.procedures.Extends between.procedures →
      between.procedures.Sound → before.next ≤ between.next → holds value between →
      Reaches (next value) between holds') : Reaches (action >>= next) before holds' := by
  unfold Reaches at first ⊢
  simp only [Bind.bind, EStateM.bind]
  match begun : action before with
  | .error error between =>
    rw [begun] at first
    exact first
  | .ok value between =>
    rw [begun] at first
    obtain ⟨grown, sound, taken, result⟩ := first
    have later := rest value between grown sound taken result
    unfold Reaches at later
    dsimp only
    match ended : next value between with
    | .error error after =>
      rw [ended] at later
      exact ⟨grown.trans later.1, later.2⟩
    | .ok value' after =>
      rw [ended] at later
      obtain ⟨grown', sound', taken', result'⟩ := later
      exact ⟨grown.trans grown', sound', Nat.le_trans taken taken', result'⟩

theorem imp {holds' : α → Compilation → Prop} (reaches : Reaches action before holds)
    (weaker : ∀ value after, before.procedures.Extends after.procedures → holds value after →
      holds' value after) : Reaches action before holds' := by
  unfold Reaches at reaches ⊢
  match ended : action before with
  | .error error after =>
    rw [ended] at reaches
    exact reaches
  | .ok value after =>
    rw [ended] at reaches
    obtain ⟨grown, sound, taken, result⟩ := reaches
    exact ⟨grown, sound, taken, weaker value after grown result⟩

end Reaches

variable {α : Type} {before : Compilation}

/-- Taking the variables of threads leaves the store alone. -/
theorem reaches_threads (sound : before.procedures.Sound) (spec : LoopSpec) :
    Reaches (supplied spec.threads) before fun threads after =>
      spec.threads before.next = .ok threads after.next ∧ after.procedures = before.procedures := by
  unfold Reaches supplied
  match ended : spec.threads before.next with
  | .ok threads next =>
    obtain ⟨taken, same, _⟩ := spec.shifting_threads id before.next 0 threads next ended
    exact ⟨.refl _, sound, by dsimp only; omega, rfl, rfl⟩
  | .error error next => exact ⟨.refl _, sound⟩

variable {procedures : Procedures} {action : Compiler α} {signature : Signature} {registration : Registration}
  {specs body : Term} {shared : Option VarSet} {after : Compilation}

/-- A registration points to a procedure with the signature. -/
theorem exists_entry_of_registered? (found : procedures.registered? signature = some registration) :
    ∃ entry, procedures.entries[registration.handle]? = some entry ∧ entry.signature = signature ∧
      entry.procedure.name = registration.name := by
  simp only [Procedures.registered?, Option.bind_eq_bind, Option.bind_eq_some_iff, Option.pure_def,
    Option.some.injEq] at found
  obtain ⟨handle, first, procedure, there, rfl⟩ := found
  simp only [Procedures.get?, Option.map_eq_some_iff] at there
  obtain ⟨entry, there, rfl⟩ := there
  refine ⟨entry, there, ?_, rfl⟩
  obtain ⟨inside, holds, _⟩ := List.findIdx?_eq_some_iff_getElem.mp first
  rw [List.getElem?_eq_getElem inside, Option.some.injEq] at there
  simpa [there] using holds

/-- A new name is not yet in use. -/
theorem reaches_issueName (sound : before.procedures.Sound) :
    Reaches issueName before fun name after =>
      ∃ number, name = Procedures.nameOf number ∧ before.procedures.issued = number ∧
        after.procedures.issued = number + 1 ∧
        ∀ entry ∈ after.procedures.entries, entry.procedure.name ≠ name := by
  refine ⟨⟨by simp [Procedures.issue], [], by simp [Procedures.issue], by simp⟩,
    ⟨sound.entry, ?_, sound.distinct⟩, Nat.le_refl _, before.procedures.issued, rfl, rfl, rfl, ?_⟩
  · intro entry member
    obtain ⟨number, low, name⟩ := sound.named entry member
    exact ⟨number, by simp [Procedures.issue]; omega, name⟩
  · intro entry member same
    obtain ⟨number, low, name⟩ := sound.named entry member
    have := Procedures.nameOf_injective (name.symm.trans same)
    omega

/-- A registration in a store: the procedure it points to has the signature and the name. -/
def Registers (procedures : Procedures) (signature : Signature) (registration : Registration) : Prop :=
  ∃ entry, procedures.entries[registration.handle]? = some entry ∧ entry.signature = signature ∧
    entry.procedure.name = registration.name

/-- Adding a procedure registers one with the signature. -/
theorem registers_add (procedures : Procedures) (signature : Signature) (procedure : Procedure) :
    Registers (procedures.add signature procedure).2 signature (procedures.add signature procedure).1 := by
  rw [Procedures.add]
  match found : procedures.registered? signature with
  | some registration => exact exists_entry_of_registered? found
  | none => exact ⟨⟨signature, procedure⟩, by simp [Procedures.size], rfl, rfl⟩

/-- Adding a procedure under an unused name keeps the store sound. -/
theorem add_sound (sound : procedures.Sound) (signature : Signature) {procedure : Procedure} {number : Nat}
    (named : procedure.name = Procedures.nameOf number) (issued : number < procedures.issued)
    (unused : ∀ entry ∈ procedures.entries, entry.procedure.name ≠ procedure.name)
    (made : ProcedureEntry.Sound procedures.entries ⟨signature, procedure⟩) :
    (procedures.add signature procedure).2.issued = procedures.issued ∧
      (procedures.add signature procedure).2.Sound ∧
      ∃ added, (procedures.add signature procedure).2.entries = procedures.entries ++ added ∧
        ∀ entry ∈ added, entry.procedure.name = procedure.name := by
  rw [Procedures.add]
  match procedures.registered? signature with
  | some registration =>
    exact ⟨rfl, sound, [], by simp, by simp⟩
  | none =>
    have subset : procedures.entries ⊆ procedures.entries ++ [⟨signature, procedure⟩] :=
      List.subset_append_left _ _
    refine ⟨rfl, ⟨?_, ?_, ?_⟩, [⟨signature, procedure⟩], rfl, by simp⟩
    · intro entry member
      rcases List.mem_append.mp member with member | member
      · exact (sound.entry entry member).mono subset
      · rw [List.mem_singleton.mp member]
        exact made.mono subset
    · intro entry member
      rcases List.mem_append.mp member with member | member
      · exact sound.named entry member
      · rw [List.mem_singleton.mp member]
        exact ⟨number, issued, named⟩
    · rw [List.map_append, List.map_singleton]
      refine List.nodup_append.mpr ⟨sound.distinct, by simp, ?_⟩
      rintro name member _ last rfl
      obtain ⟨entry, inside, rfl⟩ := List.mem_map.mp member
      exact unused entry inside (List.mem_singleton.mp last)

/-- Where there is a procedure with the signature, registration finds it. -/
theorem register_found (found : before.procedures.registered? signature = some registration)
    (make : String → Compiler (Procedure × List α)) :
    register signature make before = .ok (registration, []) before := by
  simp [register, Bind.bind, EStateM.bind, get, getThe, MonadStateOf.get, EStateM.get, found, Pure.pure,
    EStateM.pure]

/-- Where there is no procedure with the signature, one is made under the next name and added. -/
theorem register_made (found : before.procedures.registered? signature = none)
    (make : String → Compiler (Procedure × List α)) :
    register signature make before =
      match make (Procedures.nameOf before.procedures.issued)
          { before with procedures := before.procedures.issue } with
      | .error error after => .error error after
      | .ok (procedure, findings) after =>
        .ok ((after.procedures.add signature procedure).1, findings)
          { after with procedures := (after.procedures.add signature procedure).2 } := by
  simp only [register, Bind.bind, EStateM.bind, get, getThe, MonadStateOf.get, EStateM.get, found, issueName,
    modifyGet, MonadStateOf.modifyGet, EStateM.modifyGet]
  cases make (Procedures.nameOf before.procedures.issued) _ <;> rfl

/-- Registration finds or makes a procedure with the signature. -/
theorem reaches_register (sound : before.procedures.Sound) {make : String → Compiler (Procedure × List α)}
    (makes : ∀ name between, between.procedures.Sound → before.next ≤ between.next →
      Reaches (make name) between fun made after => made.1.name = name ∧
        ProcedureEntry.Sound after.procedures.entries ⟨signature, made.1⟩) :
    Reaches (register signature make) before fun result after =>
      Registers after.procedures signature result.1 := by
  match found : before.procedures.registered? signature with
  | some registration =>
    unfold Reaches
    rw [register_found found]
    exact ⟨.refl _, sound, Nat.le_refl _, exists_entry_of_registered? found⟩
  | none =>
    let name := Procedures.nameOf before.procedures.issued
    let start : Compilation := { before with procedures := before.procedures.issue }
    obtain ⟨issue, soundStart, _, number, _, same, issued, unused⟩ :
        before.procedures.Extends start.procedures ∧ start.procedures.Sound ∧ before.next ≤ start.next ∧
          ∃ number, name = Procedures.nameOf number ∧ before.procedures.issued = number ∧
            start.procedures.issued = number + 1 ∧
            ∀ entry ∈ start.procedures.entries, entry.procedure.name ≠ name :=
      reaches_issueName sound
    have making := makes name start soundStart (Nat.le_refl _)
    unfold Reaches at making ⊢
    rw [register_made found]
    match made : make name start with
    | .error error between =>
      rw [made] at making
      exact ⟨issue.trans making.1, making.2⟩
    | .ok (procedure, findings) between =>
      rw [made] at making
      obtain ⟨grown, soundBetween, taken, named, soundEntry⟩ := making
      obtain ⟨more, added, entries, names⟩ := grown
      -- Names that were given out while the procedure was made are later than its own.
      have unused' : ∀ entry ∈ between.procedures.entries, entry.procedure.name ≠ procedure.name := by
        intro entry member
        rw [named]
        rw [entries] at member
        rcases List.mem_append.mp member with member | member
        · exact unused entry member
        · obtain ⟨later, low, _, name'⟩ := names entry member
          rw [name']
          intro clash
          have := Procedures.nameOf_injective clash
          omega
      obtain ⟨sameIssued, soundAfter, added', entries', names'⟩ :=
        add_sound soundBetween signature named (by omega) unused' soundEntry
      refine ⟨⟨by dsimp only at *; omega, added ++ added', ?_, ?_⟩, soundAfter, taken,
        registers_add between.procedures signature procedure⟩
      · rw [entries', entries, List.append_assoc]
        rfl
      · intro entry member
        dsimp only at *
        rcases List.mem_append.mp member with member | member
        · obtain ⟨later, low, high, name'⟩ := names entry member
          exact ⟨later, by omega, by omega, name'⟩
        · exact ⟨before.procedures.issued, Nat.le_refl _, by omega, (names' entry member).trans named⟩

/-- The specification that is compiled has only variables of the one that was given and parameters. -/
theorem mem_occurrences_of_read {parsed : LoopSpec} (read : LoopSpec.ofTerm specs = .ok parsed) {id : Nat}
    (member : id ∈ ((shared.map parsed.withParams).getD parsed).occurrences) :
    id ∈ specs.occurrences ∨ id ∈ shared.getD [] := by
  cases shared with
  | none => exact .inl (LoopSpec.mem_occurrences_of_ofTerm read member)
  | some shared =>
    rcases LoopSpec.mem_occurrences_of_withParams member with member | member
    · exact .inr member
    · exact .inl (LoopSpec.mem_occurrences_of_ofTerm read member)

theorem lt_of_read {parsed : LoopSpec} {next : Nat} (read : LoopSpec.ofTerm specs = .ok parsed)
    (below : ∀ id ∈ specs.occurrences ++ body.occurrences ++ shared.getD [], id < next) :
    ∀ id ∈ ((shared.map parsed.withParams).getD parsed).occurrences ++ body.occurrences, id < next := by
  intro id member
  apply below
  rcases List.mem_append.mp member with member | member
  · rcases mem_occurrences_of_read read member with member | member <;> simp [member]
  · simp [member]

/-- What is known of a loop that was compiled. -/
structure Compiles (specs body : Term) (shared : Option VarSet) (before : Compilation)
    (spec : LoopSpec) (threads : Threads) (entry : ProcedureEntry) (compiled : CompiledLoop)
    (after : Compilation) : Prop where
  /-- The specification can be read, and gets the shared variables for parameters. -/
  read : ∃ parsed, LoopSpec.ofTerm specs = .ok parsed ∧
    spec = (shared.map parsed.withParams).getD parsed
  /-- The threads are those of the specification. -/
  threaded : ∃ between, spec.threads before.next = .ok threads between ∧ between ≤ after.next
  /-- The procedure is registered. -/
  registered : after.procedures.entries[compiled.handle]? = some entry
  /-- The procedure has the signature of the loop. -/
  signature : entry.signature = .ofLoop spec.toTerm body
  /-- The name is that of the procedure. -/
  name : entry.procedure.name = compiled.name
  /-- The goal calls the procedure. -/
  goal : compiled.goal = threads.initialGoal compiled.name
  /-- The number of arguments is that of the threads. -/
  arity : compiled.arity = threads.arity

theorem reaches_compileWith (sound : before.procedures.Sound) {expandBody : VarSet → Compiler Treated}
    (below : ∀ id ∈ specs.occurrences ++ body.occurrences ++ shared.getD [], id < before.next)
    (expands : ∀ outside between, between.procedures.Sound → before.next ≤ between.next →
      Reaches (expandBody outside) between fun treated after =>
        Expansion after.procedures.entries between.next body outside treated.1 after.next) :
    Reaches (compileWith specs body shared expandBody) before fun compiled after =>
      ∃ spec threads entry, Compiles specs body shared before spec threads entry compiled after := by
  refine (Reaches.ofExcept sound _).bind ?_
  rintro parsed _ _ _ _ ⟨read, rfl⟩
  refine (reaches_threads sound _).bind ?_
  rintro threads between _ soundBetween taken ⟨threaded, same⟩
  refine (reaches_register soundBetween ?_).bind ?_
  · intro name start soundStart later
    refine (expands threads.context start soundStart (Nat.le_trans taken later)).bind ?_
    rintro ⟨body', findings⟩ after _ soundAfter _ expansion
    exact .pure soundAfter ⟨rfl, _, body, body', threads, before.next, between.next, start.next, after.next,
      rfl, lt_of_read read below, threaded, later, expansion, rfl⟩
  · rintro ⟨registration, findings⟩ after _ soundAfter later ⟨entry, there, signature, name⟩
    exact .pure soundAfter ⟨_, threads, entry, ⟨parsed, read, rfl⟩, ⟨between.next, threaded, later⟩, there,
      signature, name, rfl, rfl⟩

/-- Compiling the loops of a goal gives an expanded goal. -/
theorem reaches_expandGoal (before : Compilation) (sound : before.procedures.Sound) {goal : Term}
    (below : goal.Below before.next) (outside : VarSet) :
    Reaches (expandGoal goal outside) before fun treated after =>
      Expansion after.procedures.entries before.next goal outside treated.1 after.next := by
  unfold expandGoal
  induction goal using goalInduction generalizing before outside with
  | modality name inner walked ih =>
    rw [treatGoal_modality _ walked]
    refine (ih before sound (Term.below_unary.mp below) outside).bind ?_
    rintro ⟨inner', findings⟩ after _ soundAfter _ expansion
    exact .pure soundAfter (.modality walked expansion)
  | junction name left right walked ihLeft ihRight =>
    rw [treatGoal_junction _ walked]
    obtain ⟨belowLeft, belowRight⟩ := Term.below_binary.mp below
    refine (ihLeft before sound belowLeft _).bind ?_
    rintro ⟨left', findings⟩ between _ soundBetween taken first
    refine (ihRight between soundBetween (belowRight.mono taken) _).bind ?_
    rintro ⟨right', more⟩ after grown soundAfter _ second
    exact .pure soundAfter (.junction walked (first.mono grown.subset) second)
  | loop specs body known ih =>
    rw [treatGoal_loop _ known]
    obtain ⟨belowSpecs, belowBody⟩ := Term.below_binary.mp below
    refine (Reaches.ofExcept sound _).bind ?_
    rintro spec _ _ _ _ ⟨read, rfl⟩
    have bounded : ∀ id ∈ specs.occurrences ++ body.occurrences ++
        (some (spec.shared body outside)).getD [], id < before.next := by
      intro id member
      rcases List.mem_append.mp member with member | member
      · rcases List.mem_append.mp member with member | member
        · exact belowSpecs id member
        · exact belowBody id member
      · rcases List.mem_append.mp (LoopSpec.mem_occurrences_of_shared member) with member | member
        · exact belowSpecs id (LoopSpec.mem_occurrences_of_ofTerm read member)
        · exact belowBody id member
    refine (reaches_compileWith sound bounded ?_).bind ?_
    · intro outside between soundBetween taken
      exact ih between soundBetween (belowBody.mono taken) outside
    · rintro compiled after _ soundAfter _ ⟨spec', threads, entry, compiles⟩
      obtain ⟨parsed, read', same⟩ := compiles.read
      obtain rfl : spec = parsed := by
        rw [read, Except.ok.injEq] at read'
        exact read'
      obtain ⟨between, threaded, later⟩ := compiles.threaded
      rw [compiles.goal, ← compiles.name]
      have signature := compiles.signature
      rw [same] at threaded signature
      exact .pure soundAfter (.loop known read threaded (List.mem_of_getElem? compiles.registered)
        signature later)
  | leaf goal leaf =>
    rw [treatGoal_leaf _ leaf]
    exact .pure sound (.leaf leaf)

/-- Compiling a loop registers a procedure for it. -/
theorem reaches_compileLoop (before : Compilation) (sound : before.procedures.Sound)
    (below : ∀ id ∈ specs.occurrences ++ body.occurrences ++ shared.getD [], id < before.next) :
    Reaches (compileLoop specs body shared) before fun compiled after =>
      ∃ spec threads entry, Compiles specs body shared before spec threads entry compiled after := by
  apply reaches_compileWith sound below
  intro outside between soundBetween taken
  apply reaches_expandGoal between soundBetween
  intro id occurs
  exact Nat.lt_of_lt_of_le (below id (by simp [occurs])) taken

theorem reaches_expandClause (before : Compilation) (sound : before.procedures.Sound) {clause : Term}
    (below : clause.Below before.next) : Reaches (expandClause clause) before fun _ _ => True := by
  have expands {goal : Term} (occurs : ∀ id ∈ goal.occurrences, id ∈ clause.occurrences)
      (outside : VarSet) : Reaches (expandGoal goal outside) before fun _ _ => True :=
    (reaches_expandGoal before sound (fun id member => below id (occurs id member)) outside).imp
      fun _ _ _ _ => trivial
  unfold expandClause treatClause
  split
  · rename_i head body isRule
    refine (expands ?_ _).bind fun _ _ _ sound' _ _ => .pure sound' trivial
    intro id occurs
    unfold Term.binary? at isRule
    split at isRule <;> simp_all
  · rename_i goal _ isDirective
    refine (expands ?_ _).bind fun _ _ _ sound' _ _ => .pure sound' trivial
    intro id occurs
    unfold Term.unary? at isDirective
    split at isDirective <;> simp_all
  · exact .pure sound trivial

/-- The store after a step of compilation, whether it failed or not. -/
def storeAfter (action : Compiler α) (before : Compilation) : Procedures :=
  match action before with
  | .ok _ after => after.procedures
  | .error _ after => after.procedures

theorem storeAfter_ok {value : α} (ended : action before = .ok value after) :
    storeAfter action before = after.procedures := by rw [storeAfter, ended]

theorem storeAfter_error {error : LoopError} (ended : action before = .error error after) :
    storeAfter action before = after.procedures := by
  rw [storeAfter, ended]

theorem Reaches.storeAfter {holds : α → Compilation → Prop} (reaches : Reaches action before holds) :
    (storeAfter action before).Sound := by
  unfold Reaches at reaches
  unfold Compiler.storeAfter
  match ended : action before with
  | .ok value after =>
    rw [ended] at reaches
    exact reaches.2.1
  | .error error after =>
    rw [ended] at reaches
    exact reaches.2

end Compiler

/-- The stores that compiling can build, from goals whose variables are known. -/
inductive Procedures.Reachable : Procedures → Prop
  | empty : Reachable {}
  | goal {procedures : Procedures} (reachable : Reachable procedures) (next : Nat) (goal : Term)
      (outside : VarSet) (below : goal.Below next) :
      Reachable (Compiler.storeAfter (Compiler.expandGoal goal outside) ⟨next, procedures⟩)
  | clause {procedures : Procedures} (reachable : Reachable procedures) (next : Nat) (clause : Term)
      (below : clause.Below next) :
      Reachable (Compiler.storeAfter (Compiler.expandClause clause) ⟨next, procedures⟩)
  | loop {procedures : Procedures} (reachable : Reachable procedures) (next : Nat) (specs body : Term)
      (shared : Option VarSet)
      (below : ∀ id ∈ specs.occurrences ++ body.occurrences ++ shared.getD [], id < next) :
      Reachable (Compiler.storeAfter (Compiler.compileLoop specs body shared) ⟨next, procedures⟩)

/-- All stores that compiling can build are sound. -/
theorem Procedures.Reachable.sound (reachable : Reachable procedures) : procedures.Sound := by
  induction reachable with
  | empty => exact .empty
  | goal _ next goal outside below ih =>
    exact (Compiler.reaches_expandGoal ⟨next, _⟩ ih below outside).storeAfter
  | clause _ next clause below ih =>
    exact (Compiler.reaches_expandClause ⟨next, _⟩ ih below).storeAfter
  | loop _ next specs body shared below ih =>
    exact (Compiler.reaches_compileLoop ⟨next, _⟩ ih below).storeAfter

/-! ## Growth without assumptions -/

/-- Adding a procedure keeps the others in their places. -/
theorem Procedures.isPrefix_add (procedures : Procedures) (signature : Signature) (procedure : Procedure) :
    procedures.entries <+: (procedures.add signature procedure).2.entries := by
  unfold add
  split
  · exact List.prefix_refl _
  · exact List.prefix_append _ _

namespace Compiler

/-- Whatever the store is, a step of compilation leads to a related one, whether it fails or not. -/
def Keeps {α : Type} (related : Procedures → Procedures → Prop) (action : Compiler α) : Prop :=
  ∀ before, related before.procedures (storeAfter action before)

/-- A relation between stores that compiling loops keeps: it has to cover giving out a name and adding the procedure
that was made under it, with anything covered in between. -/
structure Kept (related : Procedures → Procedures → Prop) : Prop where
  /-- Doing nothing is covered. -/
  refl : ∀ procedures, related procedures procedures
  /-- Steps can be put together. -/
  trans : ∀ {first second third}, related first second → related second third → related first third
  /-- A name may be lost. -/
  issued : ∀ {before after : Procedures}, related before.issue after → related before after
  /-- A procedure of a loop may be added under a name that was given out before. -/
  added : ∀ {spec : LoopSpec} {threads : Threads} {start finish : Nat},
    spec.threads start = .ok threads finish → ∀ {before after : Procedures} (body body' : Term),
      before.registered? (.ofLoop spec.toTerm body) = none → related before.issue after →
        related before (after.add (.ofLoop spec.toTerm body)
          (threads.procedure (Procedures.nameOf before.issued) body')).2

namespace Kept

variable {related : Procedures → Procedures → Prop} (kept : Kept related) {α β : Type}
include kept

theorem pure (value : α) : Keeps related (Pure.pure value) := fun before => kept.refl before.procedures

theorem ofExcept (value : Except LoopError α) : Keeps related (MonadExcept.ofExcept value) := by
  intro before
  cases value <;> exact kept.refl before.procedures

theorem bind {action : Compiler α} {next : α → Compiler β} (first : Keeps related action)
    (rest : ∀ value, Keeps related (next value)) : Keeps related (action >>= next) := by
  intro before
  have begins := first before
  simp only [storeAfter, Bind.bind, EStateM.bind] at begins ⊢
  match begun : action before with
  | .error error between =>
    rw [begun] at begins
    exact begins
  | .ok value between =>
    rw [begun] at begins
    exact kept.trans begins (rest value between)

/-- What is done with the threads of a loop may use where they come from. -/
theorem supplied {spec : LoopSpec} {next : Threads → Compiler β}
    (rest : ∀ {threads start finish}, spec.threads start = .ok threads finish → Keeps related (next threads)) :
    Keeps related (Compiler.supplied spec.threads >>= next) := by
  intro before
  simp only [storeAfter, Bind.bind, EStateM.bind, Compiler.supplied]
  match threaded : spec.threads before.next with
  | .error error finish => exact kept.refl before.procedures
  | .ok threads finish => exact rest threaded { before with next := finish }

theorem register {spec : LoopSpec} {threads : Threads} {start finish : Nat}
    (threaded : spec.threads start = .ok threads finish) (body : Term) {expand : Compiler Treated}
    (expands : Keeps related expand) :
    Keeps related (Compiler.register (Signature.ofLoop spec.toTerm body) fun name => do
      let (body, findings) ← expand
      return (threads.procedure name body, findings)) := by
  intro before
  match found : before.procedures.registered? (.ofLoop spec.toTerm body) with
  | some registration =>
    rw [storeAfter, register_found found]
    exact kept.refl before.procedures
  | none =>
    have expanding := expands { before with procedures := before.procedures.issue }
    simp only [storeAfter, register_made found, Bind.bind, EStateM.bind] at expanding ⊢
    match expanded : expand { before with procedures := before.procedures.issue } with
    | .error error after =>
      rw [expanded] at expanding
      exact kept.issued expanding
    | .ok (body', findings) after =>
      rw [expanded] at expanding
      exact kept.added threaded body body' found expanding

theorem compileWith (specs body : Term) (shared : Option VarSet) {expandBody : VarSet → Compiler Treated}
    (expands : ∀ outside, Keeps related (expandBody outside)) :
    Keeps related (Compiler.compileWith specs body shared expandBody) :=
  kept.bind (kept.ofExcept _) fun _ => kept.supplied fun threaded =>
    kept.bind (kept.register threaded body (expands _)) fun _ => kept.pure _

theorem expandGoal (goal : Term) (outside : VarSet) : Keeps related (Compiler.expandGoal goal outside) := by
  unfold Compiler.expandGoal
  induction goal using goalInduction generalizing outside with
  | modality name inner walked ih =>
    rw [treatGoal_modality _ walked]
    exact kept.bind (ih outside) fun _ => kept.pure _
  | junction name left right walked ihLeft ihRight =>
    rw [treatGoal_junction _ walked]
    exact kept.bind (ihLeft _) fun _ => kept.bind (ihRight _) fun _ => kept.pure _
  | loop specs body known ih =>
    rw [treatGoal_loop _ known]
    exact kept.bind (kept.ofExcept _) fun _ => kept.bind (kept.compileWith specs body _ ih) fun _ => kept.pure _
  | leaf goal leaf =>
    rw [treatGoal_leaf _ leaf]
    exact kept.pure _

theorem expandClause (clause : Term) : Keeps related (Compiler.expandClause clause) := by
  unfold Compiler.expandClause treatClause
  split
  · exact kept.bind (kept.expandGoal _ _) fun _ => kept.pure _
  · exact kept.bind (kept.expandGoal _ _) fun _ => kept.pure _
  · exact kept.pure _

theorem compileLoop (specs body : Term) (shared : Option VarSet) :
    Keeps related (Compiler.compileLoop specs body shared) :=
  kept.compileWith specs body shared (kept.expandGoal body)

end Kept

/-- A step of compilation only adds procedures, whatever is in the store. -/
def Adds {α : Type} (action : Compiler α) : Prop :=
  ∀ before, before.procedures.entries <+: (storeAfter action before).entries

/-- Compiling keeps procedures in their places. -/
theorem kept_isPrefix : Kept fun before after => before.entries <+: after.entries where
  refl _ := List.prefix_refl _
  trans := List.IsPrefix.trans
  issued grown := grown
  added := by
    intro _ _ _ _ _ before after body body' _ grown
    exact grown.trans (Procedures.isPrefix_add _ _ _)

theorem Adds.compileLoop (specs body : Term) (shared : Option VarSet) :
    Adds (Compiler.compileLoop specs body shared) := kept_isPrefix.compileLoop specs body shared

end Compiler

end HornLoops
