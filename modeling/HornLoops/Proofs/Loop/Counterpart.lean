import HornLoops.Proofs.Loop.Equivariance

/-!
# Goals over different stores of procedures

Two stores may have different procedures for the same loop, or the same procedure under different names. Goals that
differ only in this are counterparts of each other: where one calls the procedure of a loop, the other one calls the
procedure that its store has for a variant of the loop. Compiling variants over different stores leads to counterparts,
and so do the bodies of procedures with the same signature. Whether a loop can be compiled does not depend on the
store.
-/

namespace HornLoops

/-! ## Counterparts -/

/-- Where what is on the right is related to itself, a list is related to itself if it is on the right. -/
theorem forall₂_refl_right {α β : Type} {related : α → β → Prop} {related' : β → β → Prop} {left : List α} {right : List β}
    (each : List.Forall₂ related left right) (self : ∀ value value', related value value' → related' value' value') :
    List.Forall₂ related' right right := by
  induction each with
  | nil => exact .nil
  | cons first _ ih => exact .cons (self _ _ first) ih

/-- Procedures that two stores have for the same loop, which mentions no names but allowed ones. -/
structure SameLoop (allowed : String → Prop) (entries entries' : List ProcedureEntry) (left right : ProcedureEntry) :
    Prop where
  /-- The first procedure is in the first store. -/
  registered : left ∈ entries
  /-- The second procedure is in the second store. -/
  registered' : right ∈ entries'
  /-- They are registered for the same loop. -/
  signature : left.signature = right.signature
  /-- The loop mentions only names that are allowed. -/
  named : left.signature.shape.Named allowed

variable {allowed : String → Prop} {left right : ProcedureEntry} {entries entries' : List ProcedureEntry}
  {number' number : Nat → Nat} {goal goal' : Term} {threads : Threads} {next after next' after' : Nat}
  {outside outside' : VarSet} {ids : List Nat}

/-- Larger stores do no harm. -/
theorem SameLoop.mono {few few' many many' : List ProcedureEntry} (same : SameLoop allowed few few' left right)
    (subset : few ⊆ many) (subset' : few' ⊆ many') : SameLoop allowed many many' left right :=
  ⟨subset same.registered, subset' same.registered', same.signature, same.named⟩

theorem SameLoop.symm (same : SameLoop allowed entries entries' left right) :
    SameLoop allowed entries' entries right left :=
  ⟨same.registered', same.registered, same.signature.symm, same.signature ▸ same.named⟩

/-- A procedure is one for its own loop. -/
theorem SameLoop.refl_right (same : SameLoop allowed entries entries' left right) :
    SameLoop allowed entries' entries' right right :=
  ⟨same.registered', same.registered', rfl, same.signature ▸ same.named⟩

/-- Goals that are related, except that they may call different procedures for the same loop. -/
inductive Counterpart (related : Term → Term → Prop) (paired : ProcedureEntry → ProcedureEntry → Prop) :
    Term → Term → Prop
  | plain {goal goal' : Term} (same : related goal goal') : Counterpart related paired goal goal'
  | modality {name : String} {inner inner' : Term} (walked : isModality name = true)
      (inside : Counterpart related paired inner inner') :
      Counterpart related paired (.unary name inner) (.unary name inner')
  | junction {name : String} {left left' right right' : Term} (walked : isJunction name = true)
      (first : Counterpart related paired left left') (second : Counterpart related paired right right') :
      Counterpart related paired (.binary name left right) (.binary name left' right')
  | call {entry entry' : ProcedureEntry} (pair : paired entry entry') {args args' : List Term}
      (same : List.Forall₂ related args args') :
      Counterpart related paired (.build entry.procedure.name args) (.build entry'.procedure.name args')

/-- A term with allowed names and its renaming. -/
def Renamed (allowed : String → Prop) (number : Nat → Nat) (term term' : Term) : Prop :=
  term.Named allowed ∧ term' = term.rename number

namespace Renamed

variable {allowed : String → Prop} {number : Nat → Nat}

variable {term term' : Term} {terms : List Term}

theorem of_named (named : term.Named allowed) : Renamed allowed number term (term.rename number) :=
  ⟨named, rfl⟩

theorem self (named : term.Named allowed) : Renamed allowed id term term :=
  ⟨named, (Term.rename_eq_self fun _ _ => rfl).symm⟩

theorem eq (same : Renamed allowed id term term') : term' = term :=
  same.2.trans (Term.rename_eq_self fun _ _ => rfl)

theorem symm (same : Renamed allowed id term term') : Renamed allowed id term' term := by
  rw [same.eq]
  exact self same.1

theorem refl_right (same : Renamed allowed id term term') : Renamed allowed id term' term' := by
  rw [same.eq]
  exact self same.1

/-- Terms that may be mentioned, next to their renamings. -/
theorem forall₂_map (mentions : Mentions allowed terms) :
    List.Forall₂ (Renamed allowed number) terms (terms.map (Term.rename number)) := by
  rw [List.forall₂_map_right_iff, List.forall₂_same]
  exact fun term member => of_named (mentions term member)

theorem flatMap_occurrences {terms' : List Term} (same : List.Forall₂ (Renamed allowed number) terms terms') :
    terms'.flatMap Term.occurrences = (terms.flatMap Term.occurrences).map number := by
  induction same with
  | nil => rfl
  | cons first _ ih => rw [List.flatMap_cons, List.flatMap_cons, List.map_append, ih, first.2, Term.occurrences_rename]

end Renamed

namespace Counterpart

variable {related related' : Term → Term → Prop} {paired paired' : ProcedureEntry → ProcedureEntry → Prop}
  {goal goal' : Term}

section

variable (counterpart : Counterpart related paired goal goal')
include counterpart

/-- Weaker relations do no harm. -/
theorem imp (weaker : ∀ term term', related term term' → related' term term')
    (weaker' : ∀ entry entry', paired entry entry' → paired' entry entry') : Counterpart related' paired' goal goal' := by
  induction counterpart with
  | plain same => exact .plain (weaker _ _ same)
  | modality walked _ ih => exact .modality walked ih
  | junction walked _ _ ihFirst ihSecond => exact .junction walked ihFirst ihSecond
  | call pair same => exact .call (weaker' _ _ pair) (same.imp weaker)

/-- The goals may change places. -/
theorem flip (turned : ∀ term term', related term term' → related' term' term)
    (turned' : ∀ entry entry', paired entry entry' → paired' entry' entry) : Counterpart related' paired' goal' goal := by
  induction counterpart with
  | plain same => exact .plain (turned _ _ same)
  | modality walked _ ih => exact .modality walked ih
  | junction walked _ _ ihFirst ihSecond => exact .junction walked ihFirst ihSecond
  | call pair same => exact .call (turned' _ _ pair) (same.imp turned).flip

/-- What is related to itself on the right is so in goals. -/
theorem refl_right (self : ∀ term term', related term term' → related' term' term')
    (self' : ∀ entry entry', paired entry entry' → paired' entry' entry') : Counterpart related' paired' goal' goal' := by
  induction counterpart with
  | plain same => exact .plain (self _ _ same)
  | modality walked _ ih => exact .modality walked ih
  | junction walked _ _ ihFirst ihSecond => exact .junction walked ihFirst ihSecond
  | call pair same => exact .call (self' _ _ pair) (forall₂_refl_right same self)

end

section

variable (truth : related .truth .truth) {goals goals' : List Term}
  (each : List.Forall₂ (Counterpart related paired) goals goals')
include truth each

/-- Goals that are joined by conjunctions. -/
theorem joinGoals : Counterpart related paired (Term.joinGoals goals) (Term.joinGoals goals') := by
  induction each with
  | nil => exact .plain truth
  | cons first rest ih =>
    cases rest with
    | nil => exact first
    | cons second rest => exact .junction rfl first ih

/-- Conjunctions of goals, from which `true` is left out on both sides. -/
theorem conjunction (trivial : List.Forall₂ (fun goal goal' => goal = Term.truth ↔ goal' = Term.truth) goals goals') :
    Counterpart related paired (Term.conjunction goals) (Term.conjunction goals') := by
  apply joinGoals truth
  induction each with
  | nil => exact .nil
  | @cons goal goal' goals goals' first rest ih =>
    cases trivial with
    | cons same others =>
      by_cases isTruth : goal = Term.truth
      · simpa [isTruth, same.mp isTruth] using ih others
      · have isTruth' : goal' ≠ Term.truth := fun equal => isTruth (same.mpr equal)
        rw [List.filter_cons_of_pos (by simpa using isTruth), List.filter_cons_of_pos (by simpa using isTruth')]
        exact .cons first (ih others)

end

section Renamed

variable {allowed : String → Prop} {number : Nat → Nat}
  (counterpart : Counterpart (Renamed allowed number) paired goal goal')
include counterpart

/-- Counterparts have corresponding variables. -/
theorem occurrences_eq : goal'.occurrences = goal.occurrences.map number := by
  induction counterpart with
  | plain same => rw [same.2, Term.occurrences_rename]
  | modality walked _ ih => simpa using ih
  | junction walked _ _ ihFirst ihSecond => simp [ihFirst, ihSecond]
  | call _ same => simpa using Renamed.flatMap_occurrences same

/-- Counterparts are such after renamings that fit together, and only variables that occur matter. -/
theorem rename {first second across : Nat → Nat}
    (fits : ∀ id ∈ goal.occurrences, second (number id) = across (first id)) :
    Counterpart (Renamed allowed across) paired (goal.rename first) (goal'.rename second) := by
  have plain {term term' : Term} (same : Renamed allowed number term term')
      (fits : ∀ id ∈ term.occurrences, second (number id) = across (first id)) :
      Renamed allowed across (term.rename first) (term'.rename second) := by
    refine ⟨by simpa using same.1, ?_⟩
    rw [same.2, Term.rename_rename, Term.rename_rename]
    exact Term.rename_congr fits
  induction counterpart with
  | plain same => exact .plain (plain same fits)
  | modality walked _ ih =>
    rw [Term.rename_unary, Term.rename_unary]
    exact .modality walked (ih (by simpa using fits))
  | junction walked _ _ ihFirst ihSecond =>
    rw [Term.rename_binary, Term.rename_binary]
    simp only [Term.occurrences_binary, List.forall_mem_append] at fits
    exact .junction walked (ihFirst fits.1) (ihSecond fits.2)
  | call pair same =>
    rw [Term.rename_build, Term.rename_build]
    refine .call pair ?_
    rw [Term.occurrences_build] at fits
    induction same with
    | nil => exact .nil
    | cons head tail ih =>
      simp only [List.flatMap_cons, List.forall_mem_append] at fits
      exact .cons (plain head fits.1) (ih fits.2)

/-- Only the numbers of variables that occur matter. -/
theorem congr {number' : Nat → Nat} (same : ∀ id ∈ goal.occurrences, number' id = number id) :
    Counterpart (Renamed allowed number') paired goal goal' := by
  have renamed : Counterpart (Renamed allowed number') paired (goal.rename id) (goal'.rename id) :=
    counterpart.rename fun id occurs => (same id occurs).symm
  have kept (term : Term) : term.rename id = term := Term.rename_eq_self fun _ _ => rfl
  rwa [kept, kept] at renamed

end Renamed

end Counterpart

/-! ## Expansions -/

namespace Expansion

variable {entries : List ProcedureEntry} {next after : Nat} {goal' : Term} {outside : VarSet}

/-- Below a modality a goal is expanded. -/
theorem of_modality {name : String} {inner : Term} (walked : isModality name = true)
    (expansion : Expansion entries next (.unary name inner) outside goal' after) :
    ∃ inner', goal' = .unary name inner' ∧ Expansion entries next inner outside inner' after := by
  generalize whole : Term.unary name inner = goal at expansion
  cases expansion with
  | modality _ inside =>
    simp only [Term.unary, Term.compound.injEq, and_true] at whole
    obtain ⟨rfl, rfl⟩ := whole
    exact ⟨_, rfl, inside⟩
  | junction => simp [Term.unary, Term.binary] at whole
  | loop => simp [Term.unary, Term.binary] at whole
  | leaf leaf =>
    subst whole
    simp [Term.unary, IsLeaf, walked] at leaf

/-- On both sides of a junction goals are expanded. -/
theorem of_junction {name : String} {left right : Term} (walked : isJunction name = true)
    (expansion : Expansion entries next (.binary name left right) outside goal' after) :
    ∃ left' right' between, goal' = .binary name left' right' ∧
      Expansion entries next left (outside.extend right.occurrences) left' between ∧
      Expansion entries between right (outside.extend left.occurrences) right' after := by
  generalize whole : Term.binary name left right = goal at expansion
  cases expansion with
  | modality => simp [Term.unary, Term.binary] at whole
  | junction _ first second =>
    simp only [Term.binary, Term.compound.injEq, List.cons.injEq, and_true] at whole
    obtain ⟨rfl, rfl, rfl⟩ := whole
    exact ⟨_, _, _, rfl, first, second⟩
  | loop =>
    simp only [Term.binary, Term.compound.injEq] at whole
    rw [whole.1] at walked
    contradiction
  | leaf leaf =>
    subst whole
    simp [Term.binary, IsLeaf, walked] at leaf

/-- A loop is replaced by a call of its procedure. -/
theorem of_loop {specs body : Term} (known : specs.isVar = false)
    (expansion : Expansion entries next (.binary "do" specs body) outside goal' after) :
    ∃ spec threads entry between, LoopSpec.ofTerm specs = .ok spec ∧
      (spec.withParams (spec.shared body outside)).threads next = .ok threads between ∧ entry ∈ entries ∧
      entry.signature = .ofLoop (spec.withParams (spec.shared body outside)).toTerm body ∧ between ≤ after ∧
      goal' = threads.initialGoal entry.procedure.name := by
  generalize whole : Term.binary "do" specs body = goal at expansion
  cases expansion with
  | modality => simp [Term.unary, Term.binary] at whole
  | junction walked =>
    simp only [Term.binary, Term.compound.injEq] at whole
    rw [← whole.1] at walked
    contradiction
  | loop _ read threaded registered signature later =>
    simp only [Term.binary, Term.compound.injEq, List.cons.injEq, and_true, true_and] at whole
    obtain ⟨rfl, rfl⟩ := whole
    exact ⟨_, _, _, _, read, threaded, registered, signature, later, rfl⟩
  | leaf leaf =>
    subst whole
    simp [Term.binary, IsLeaf, known] at leaf

/-- A leaf is left alone. -/
theorem of_leaf {goal : Term} (leaf : IsLeaf goal) (expansion : Expansion entries next goal outside goal' after) :
    goal' = goal ∧ after = next := by
  cases expansion with
  | modality walked => simp [Term.unary, IsLeaf, walked] at leaf
  | junction walked => simp [Term.binary, IsLeaf, walked] at leaf
  | loop known => simp [Term.binary, IsLeaf, known] at leaf
  | leaf => exact ⟨rfl, rfl⟩

variable {goal : Term}

/-- Variables are only taken. -/
theorem le (expansion : Expansion entries next goal outside goal' after) : next ≤ after := by
  induction expansion with
  | modality _ _ ih => exact ih
  | junction _ _ _ ihLeft ihRight => exact Nat.le_trans ihLeft ihRight
  | @loop _ _ _ _ _ _ _ _ _ _ _ threaded _ _ later =>
    obtain ⟨taken, rfl, _⟩ := LoopSpec.shifting_threads id _ _ 0 _ _ threaded
    omega
  | leaf => exact Nat.le_refl _

end Expansion

/-- The variables of the goal that runs a loop through its procedure are variables of its threads. -/
theorem Threads.mem_occurrences_of_initialGoal {name : String} {id : Nat}
    (occurs : id ∈ (threads.initialGoal name).occurrences) : id ∈ threads.occurrences := by
  simp only [initialGoal, Term.occurrences_conjunction, List.flatMap_append, List.flatMap_cons, List.flatMap_nil,
    List.append_nil, Term.occurrences_build, List.mem_append] at occurs
  simp only [occurrences, Term.occurrencesAll_eq_flatMap, List.flatMap_append, List.mem_append]
  tauto

/-- The variables of an expanded goal are those of the goal and some that were taken. -/
theorem Expansion.mem_occurrences (expansion : Expansion entries next goal outside goal' after) {id : Nat}
    (occurs : id ∈ goal'.occurrences) : id ∈ goal.occurrences ∨ (next ≤ id ∧ id < after) := by
  induction expansion with
  | modality _ _ ih => simpa using ih (by simpa using occurs)
  | junction _ first second ihLeft ihRight =>
    have low := first.le
    have high := second.le
    simp only [Term.occurrences_binary, List.mem_append] at occurs ⊢
    rcases occurs with occurs | occurs
    · rcases ihLeft occurs with inside | ⟨lower, upper⟩
      · exact .inl (.inl inside)
      · exact .inr ⟨lower, by omega⟩
    · rcases ihRight occurs with inside | ⟨lower, upper⟩
      · exact .inl (.inr inside)
      · exact .inr ⟨by omega, upper⟩
  | loop _ read threaded _ _ later =>
    rcases LoopSpec.mem_occurrences_of_threads threaded (Threads.mem_occurrences_of_initialGoal occurs) with
      inside | ⟨lower, upper⟩
    · left
      simpa using LoopSpec.mem_occurrences_of_settled read (List.mem_append_left _ inside)
    · exact .inr ⟨lower, by omega⟩
  | leaf => exact .inl occurs

/-! ## Compiling variants -/

/-- Variants have the same signature. -/
theorem Signature.ofLoop_rename {specs body : Term}
    (injective : InjectiveOn number (specs.occurrences ++ body.occurrences)) :
    Signature.ofLoop (specs.rename number) (body.rename number) = Signature.ofLoop specs body := by
  rw [← Term.occurrences_binary "do"] at injective
  rw [ofLoop, ofLoop, ← Term.rename_binary, Term.normalize, Term.normalize, Term.vars_rename injective]
  congr 1
  exact Term.rename_idxOf_map (injective.mono fun id => Term.mem_vars.mp) fun id => Term.mem_vars.mpr

/-- The renaming that also sends variables that are taken from a number on to variables from another number on. -/
def shift (number : Nat → Nat) (next next' : Nat) (id : Nat) : Nat :=
  if id < next then number id else next' + (id - next)

theorem shift_of_lt {id : Nat} (old : id < next) : shift number next next' id = number id := by simp [shift, old]

theorem shift_of_le {id : Nat} (new : next ≤ id) :
    shift number next next' id = next' + (id - next) := by simp [shift, Nat.not_lt.mpr new]

/-- Variants have threads that are variants. -/
theorem LoopSpec.threads_shift (number : Nat → Nat) {spec : LoopSpec}
    (threaded : spec.threads next = .ok threads after) (below : ∀ id ∈ spec.occurrences, id < next) (next' : Nat) :
    (spec.rename number).threads next' = .ok (threads.rename (shift number next next')) (next' + (after - next)) := by
  obtain ⟨taken, rfl, shifted⟩ := spec.shifting_threads (shift number next next') next next' threads after threaded
  have moved := shifted fun offset _ => by
    rw [shift_of_le (by omega)]
    omega
  have same : spec.rename (shift number next next') = spec.rename number := by
    apply LoopSpec.toTerm_injective
    rw [LoopSpec.toTerm_rename, LoopSpec.toTerm_rename]
    apply Term.rename_congr
    intro id occurs
    rw [LoopSpec.occurrences_toTerm] at occurs
    exact shift_of_lt (below id occurs)
  rw [same] at moved
  rw [moved]
  congr 1
  omega

/-- A call of a procedure is not `true`. -/
theorem Procedures.build_nameOf_ne_truth (number : Nat) (args : List Term) :
    Term.build (nameOf number) args ≠ Term.truth := by
  have other : nameOf number ≠ "true" := nameOf_ne (by decide) number
  cases args <;> simp [Term.build, Term.truth, other]

/-- All procedures of a store have names that were given out. -/
def Generated (entries : List ProcedureEntry) : Prop :=
  ∀ entry ∈ entries, ∃ number, entry.procedure.name = Procedures.nameOf number

theorem Procedures.Sound.generated {procedures : Procedures} (sound : procedures.Sound) :
    Generated procedures.entries := by
  intro entry member
  obtain ⟨number, _, name⟩ := sound.named entry member
  exact ⟨number, name⟩

section

variable {allowed : String → Prop} (ordinary : Ordinary allowed) {entries entries' : List ProcedureEntry}
  (generated : Generated entries) (generated' : Generated entries')
include ordinary generated generated'

/-- Goals that run variants of a loop through its procedures are counterparts. -/
theorem Threads.counterpart_initialGoal {threads : Threads} (mentions : threads.Mentions allowed) (number : Nat → Nat)
    {entry entry' : ProcedureEntry} (pair : SameLoop allowed entries entries' entry entry') :
    Counterpart (Renamed allowed number) (SameLoop allowed entries entries') (threads.initialGoal entry.procedure.name)
      ((threads.rename number).initialGoal entry'.procedure.name) := by
  obtain ⟨given, name⟩ := generated entry pair.registered
  obtain ⟨given', name'⟩ := generated' entry' pair.registered'
  have call : Counterpart (Renamed allowed number) (SameLoop allowed entries entries')
      (.build entry.procedure.name threads.initial)
      (.build entry'.procedure.name (threads.rename number).initial) :=
    .call pair (Renamed.forall₂_map mentions.initial)
  refine .conjunction ⟨Term.named_atom.mpr (ordinary "true" (by decide)), rfl⟩
    (List.rel_append ((Renamed.forall₂_map mentions.prelude).imp fun _ _ => .plain) (.cons call .nil))
    (List.rel_append ?_ (.cons ?_ .nil))
  · refine (Renamed.forall₂_map mentions.prelude).imp fun goal goal' same => ?_
    rw [same.2, Term.rename_eq_truth_iff]
  · rw [name, name']
    exact iff_of_false (Procedures.build_nameOf_ne_truth given _) (Procedures.build_nameOf_ne_truth given' _)

end

/-- How a renaming is extended to variables that were taken on the way to an expanded goal. -/
structure Expansion.Paired (number number' : Nat → Nat) (next next' after' : Nat) (goal : Term) : Prop where
  /-- Variables that were there before keep their counterparts. -/
  old : ∀ id < next, number' id = number id
  /-- Variables that were taken have counterparts that were taken. -/
  new : ∀ id ∈ goal.occurrences, next ≤ id → next' ≤ number' id ∧ number' id < after'
  /-- Later ones have later counterparts. -/
  ordered : ∀ one ∈ goal.occurrences, ∀ other ∈ goal.occurrences, next ≤ one → one < other →
    number' one < number' other

/-- Different variables that were taken have different counterparts. -/
theorem Expansion.Paired.distinct (paired : Paired number number' next next' after' goal) {one other : Nat}
    (occurs : one ∈ goal.occurrences) (occurs' : other ∈ goal.occurrences) (new : next ≤ one) (new' : next ≤ other)
    (same : number' one = number' other) : one = other := by
  rcases Nat.lt_trichotomy one other with less | equal | less
  · have := paired.ordered one occurs other occurs' new less
    omega
  · exact equal
  · have := paired.ordered other occurs' one occurs new' less
    omega

/-- A renaming that was extended is still one to one. -/
theorem Expansion.Paired.injective (paired : Paired number number' next next' after' goal')
    (expansion : Expansion entries next goal outside goal' after) (injective : InjectiveOn number ids)
    (inside : ∀ id ∈ goal.occurrences, id ∈ ids) (below : ∀ id ∈ ids, id < next)
    (below' : ∀ id ∈ ids, number id < next') : InjectiveOn number' (ids ++ goal'.occurrences) := by
  have kinds : ∀ id ∈ ids ++ goal'.occurrences, id ∈ ids ∨ (id ∈ goal'.occurrences ∧ next ≤ id) := by
    intro id member
    rcases List.mem_append.mp member with member | member
    · exact .inl member
    · rcases expansion.mem_occurrences member with old | new
      · exact .inl (inside id old)
      · exact .inr ⟨member, new.1⟩
  intro one member other member' same
  rcases kinds one member with old | ⟨occurs, new⟩ <;> rcases kinds other member' with old' | ⟨occurs', new'⟩
  · rw [paired.old one (below one old), paired.old other (below other old')] at same
    exact injective one old other old' same
  · have low := below' one old
    have high := (paired.new other occurs' new').1
    rw [paired.old one (below one old)] at same
    omega
  · have low := below' other old'
    have high := (paired.new one occurs new).1
    rw [paired.old other (below other old')] at same
    omega
  · exact paired.distinct occurs occurs' new new' same

/-- A renaming is extended to variables that were taken for two goals, one after the other. -/
theorem Expansion.Paired.join {one one₁ other other₁ : Term} {between between' : Nat}
    (first : Expansion entries next one outside one₁ between)
    (second : Expansion entries between other outside' other₁ after) (below : one.Below next)
    (below' : other.Below next) (lower : next' ≤ between') (upper : between' ≤ after')
    {numberOne numberOther : Nat → Nat} (pairedOne : Paired number numberOne next next' between' one₁)
    (pairedOther : Paired number numberOther between between' after' other₁) (name : String) :
    ∃ number', Paired number number' next next' after' (.binary name one₁ other₁) ∧
      (∀ id ∈ one₁.occurrences, number' id = numberOne id) ∧ ∀ id ∈ other₁.occurrences, number' id = numberOther id := by
  have low := first.le
  -- What was taken for the first goal is older than what was taken for the second one.
  let number' (id : Nat) : Nat := if id < between then numberOne id else numberOther id
  have early {id : Nat} (lower : id < between) : number' id = numberOne id := if_pos lower
  have late {id : Nat} (upper : between ≤ id) : number' id = numberOther id := if_neg (by omega)
  have inOne : ∀ id ∈ one₁.occurrences, id < between := by
    intro id member
    rcases first.mem_occurrences member with inside | new
    · exact Nat.lt_of_lt_of_le (below id inside) low
    · exact new.2
  have news : ∀ id ∈ (Term.binary name one₁ other₁).occurrences, next ≤ id →
      (id < between ∧ id ∈ one₁.occurrences) ∨ (between ≤ id ∧ id ∈ other₁.occurrences) := by
    intro id member new
    simp only [Term.occurrences_binary, List.mem_append] at member
    rcases member with member | member
    · exact .inl ⟨inOne id member, member⟩
    · rcases second.mem_occurrences member with inside | newer
      · exact absurd (below' id inside) (by omega)
      · exact .inr ⟨newer.1, member⟩
  refine ⟨number', ⟨?_, ?_, ?_⟩, fun id member => early (inOne id member), ?_⟩
  · intro id older
    rw [early (by omega), pairedOne.old id older]
  · intro id member new
    rcases news id member new with ⟨lower, inside⟩ | ⟨upper, inside⟩
    · have range := pairedOne.new id inside new
      rw [early lower]
      omega
    · have range := pairedOther.new id inside upper
      rw [late upper]
      omega
  · intro id member id' member' new less
    rcases news id member new with ⟨lower, inside⟩ | ⟨upper, inside⟩ <;>
      rcases news id' member' (by omega) with ⟨lower', inside'⟩ | ⟨upper', inside'⟩
    · rw [early lower, early lower']
      exact pairedOne.ordered id inside id' inside' new less
    · rw [early lower, late upper']
      have range := pairedOne.new id inside new
      have range' := pairedOther.new id' inside' upper'
      omega
    · omega
    · rw [late upper, late upper']
      exact pairedOther.ordered id inside id' inside' upper less
  · intro id member
    rcases second.mem_occurrences member with inside | new
    · have older := below' id inside
      rw [early (by omega), pairedOne.old id older, pairedOther.old id (by omega)]
    · exact late new.1

/-- For each of two goals side by side the other one is part of its surroundings, for the goals and their renamings. -/
theorem around_junction {name : String} {one other : Term}
    (injective : InjectiveOn number (Term.binary name one other).occurrences)
    (around : ∀ id ∈ (Term.binary name one other).occurrences, number id ∈ outside' ↔ id ∈ outside) :
    (InjectiveOn number one.occurrences ∧ ∀ id ∈ one.occurrences,
        number id ∈ outside'.extend (other.rename number).occurrences ↔ id ∈ outside.extend other.occurrences) ∧
      InjectiveOn number other.occurrences ∧ ∀ id ∈ other.occurrences,
        number id ∈ outside'.extend (one.rename number).occurrences ↔ id ∈ outside.extend one.occurrences := by
  rw [Term.occurrences_binary] at injective around
  simp only [VarSet.mem_extend, Term.occurrences_rename]
  refine ⟨⟨injective.mono fun _ => List.mem_append_left _, fun id member => ?_⟩,
    injective.mono fun _ => List.mem_append_right _, fun id member => ?_⟩
  · rw [around id (by simp [member]), injective.mem_map (by simp [member]) fun _ => List.mem_append_right _]
  · rw [around id (by simp [member]), injective.mem_map (by simp [member]) fun _ => List.mem_append_left _]

section

variable {allowed : String → Prop} (ordinary : Ordinary allowed) {entries entries' : List ProcedureEntry}
  (generated : Generated entries) (generated' : Generated entries')
include ordinary generated generated'

variable {next after next' after' : Nat} {outside outside' : VarSet} {number : Nat → Nat} {goal₁ goal₂ : Term}

/-- Loops that are variants of each other are replaced by goals that are counterparts. -/
theorem Expansion.counterpart_loop {specs body : Term} (known : specs.isVar = false)
    (left : Expansion entries next (.binary "do" specs body) outside goal₁ after)
    (right : Expansion entries' next' (.binary "do" (specs.rename number) (body.rename number)) outside' goal₂ after')
    (named : specs.Named allowed) (namedBody : body.Named allowed)
    (injective : InjectiveOn number (specs.occurrences ++ body.occurrences))
    (around : ∀ id ∈ specs.occurrences ++ body.occurrences, number id ∈ outside' ↔ id ∈ outside)
    (below : ∀ id ∈ specs.occurrences ++ body.occurrences, id < next) :
    ∃ number', Paired number number' next next' after' goal₁ ∧
      Counterpart (Renamed allowed number') (SameLoop allowed entries entries') goal₁ goal₂ := by
  have known' : (specs.rename number).isVar = false := by rwa [Term.isVar_rename]
  obtain ⟨spec, threads, entry, between, read, threaded, registered, signature, later, rfl⟩ := of_loop known left
  obtain ⟨spec', threads', entry', between', read', threaded', registered', signature', later', rfl⟩ :=
    of_loop known' right
  rw [LoopSpec.ofTerm_rename number read, Except.ok.injEq] at read'
  subst read'
  rw [LoopSpec.rename_settled read injective around] at threaded' signature'
  have inside {id : Nat} (member : id ∈ (spec.withParams (spec.shared body outside)).occurrences) :
      id ∈ specs.occurrences ++ body.occurrences :=
    LoopSpec.mem_occurrences_of_settled read (List.mem_append_left _ member)
  rw [LoopSpec.threads_shift number threaded (fun id member => below id (inside member))] at threaded'
  injection threaded' with same ended
  subst same
  have namedSpec := LoopSpec.named_withParams ordinary (LoopSpec.named_of_ofTerm ordinary read named)
    (spec.shared body outside)
  have pair : SameLoop allowed entries entries' entry entry' := by
    refine ⟨registered, registered', ?_, ?_⟩
    · rw [signature, signature', LoopSpec.toTerm_rename, Signature.ofLoop_rename]
      rw [LoopSpec.occurrences_toTerm]
      exact injective.mono fun id member => LoopSpec.mem_occurrences_of_settled read member
    · rw [signature]
      exact (Signature.named_ofLoop ordinary).mpr ⟨namedSpec, namedBody⟩
  refine ⟨shift number next next', ⟨fun id old => shift_of_lt old, ?_, ?_⟩,
    Threads.counterpart_initialGoal ordinary generated generated'
      (LoopSpec.mentions_threads ordinary namedSpec _ _ _ threaded) _ pair⟩
  · intro id occurs new
    rcases LoopSpec.mem_occurrences_of_threads threaded (Threads.mem_occurrences_of_initialGoal occurs) with
      old | ⟨_, upper⟩
    · exact absurd (below id (inside old)) (by omega)
    · rw [shift_of_le new]
      omega
  · intro one _ other _ new less
    rw [shift_of_le new, shift_of_le (by omega)]
    omega

/-- Expansions of variants over different stores are counterparts. -/
theorem Expansion.counterpart {goal : Term} (left : Expansion entries next goal outside goal₁ after)
    (right : Expansion entries' next' (goal.rename number) outside' goal₂ after') (named : goal.Named allowed)
    (injective : InjectiveOn number goal.occurrences)
    (around : ∀ id ∈ goal.occurrences, number id ∈ outside' ↔ id ∈ outside) (below : goal.Below next)
    (below' : (goal.rename number).Below next') :
    ∃ number', Paired number number' next next' after' goal₁ ∧
      Counterpart (Renamed allowed number') (SameLoop allowed entries entries') goal₁ goal₂ := by
  induction goal using goalInduction generalizing next next' after after' goal₁ goal₂ outside outside' number with
  | modality name inner walked ih =>
    obtain ⟨inner₁, rfl, inside⟩ := of_modality walked left
    rw [Term.rename_unary] at right
    obtain ⟨inner₂, rfl, inside'⟩ := of_modality walked right
    rw [Term.named_unary] at named
    obtain ⟨number', paired, counterpart⟩ := ih inside inside' named.2 (by simpa using injective) (by simpa using around)
      (Term.below_unary.mp below) (by rwa [Term.rename_unary, Term.below_unary] at below')
    refine ⟨number', ⟨paired.old, ?_, ?_⟩, .modality walked counterpart⟩
    · simpa using paired.new
    · simpa using paired.ordered
  | junction name one other walked ihOne ihOther =>
    obtain ⟨one₁, other₁, between, rfl, first, second⟩ := of_junction walked left
    rw [Term.rename_binary] at right
    obtain ⟨one₂, other₂, between', rfl, first', second'⟩ := of_junction walked right
    obtain ⟨⟨injectiveOne, aroundOne⟩, injectiveOther, aroundOther⟩ := around_junction injective around
    rw [Term.named_binary] at named
    simp only [Term.below_binary, Term.rename_binary] at below below'
    obtain ⟨numberOne, pairedOne, counterpartOne⟩ := ihOne first first' named.2.1 injectiveOne aroundOne below.1
      below'.1
    obtain ⟨numberOther, pairedOther, counterpartOther⟩ := ihOther second second' named.2.2 injectiveOther aroundOther
      (below.2.mono first.le) (below'.2.mono first'.le)
    obtain ⟨number', paired, sameOne, sameOther⟩ :=
      Paired.join first second below.1 below.2 first'.le second'.le pairedOne pairedOther name
    exact ⟨number', paired, .junction walked (counterpartOne.congr sameOne) (counterpartOther.congr sameOther)⟩
  | loop specs body known ih =>
    rw [Term.rename_binary] at right
    rw [Term.occurrences_binary] at injective around
    rw [Term.Below, Term.occurrences_binary] at below
    rw [Term.named_binary] at named
    exact counterpart_loop ordinary generated generated' known left right named.2.1 named.2.2 injective around below
  | leaf goal leaf =>
    obtain ⟨rfl, rfl⟩ := of_leaf leaf left
    obtain ⟨rfl, rfl⟩ := of_leaf (leaf.rename number) right
    refine ⟨number, ⟨fun _ _ => rfl, ?_, ?_⟩, .plain ⟨named, rfl⟩⟩
    · intro id occurs new
      exact absurd (below id occurs) (by omega)
    · intro one occurs other _ new
      exact absurd (below one occurs) (by omega)

end

end HornLoops
