import HornLoops.Proofs.Bindings.Mirror
import HornLoops.Proofs.Loop.Sharing

/-!
# Loops do not depend on the numbers of variables

What a loop shares with its surroundings, and with that the loop that is compiled, is the same up to renaming for
variants of the loop in surroundings that correspond to each other. So are the goals that the loops inside a goal are
replaced by, except for the names of the procedures: these come from the store, and what two stores have in common is
that procedures of variants are made from variants.
-/

namespace HornLoops

variable {number : Nat → Nat} {ids : List Nat} {id : Nat} {body specs : Term} {outside : VarSet} {spec : LoopSpec}

/-- A renaming that gives different numbers to the members of a list can be undone on them. -/
theorem InjectiveOn.exists_inverse (injective : InjectiveOn number ids) :
    ∃ back : Nat → Nat, ∀ id ∈ ids, back (number id) = id := by
  refine ⟨fun image => ids.getD ((ids.map number).idxOf image) 0, fun id member => ?_⟩
  have inside : ids.idxOf id < ids.length := List.idxOf_lt_length_of_mem member
  simp only [injective.idxOf_map member]
  rw [List.getD_eq_getElem _ _ inside, List.getElem_idxOf]

/-- Membership is kept by a renaming that gives different numbers to the variables in question. -/
theorem InjectiveOn.mem_map {few : List Nat} (injective : InjectiveOn number ids) (member : id ∈ ids)
    (subset : ∀ other ∈ few, other ∈ ids) : number id ∈ few.map number ↔ id ∈ few := by
  rw [List.mem_map]
  constructor
  · rintro ⟨other, inside, same⟩
    rwa [← injective other (subset other inside) id member same]
  · exact fun inside => ⟨id, inside, rfl⟩

namespace Term

/-- A renaming that was undone. -/
theorem rename_inverse {number back : Nat → Nat} {term : Term}
    (inverse : ∀ id ∈ term.occurrences, back (number id) = id) : (term.rename number).rename back = term := by
  rw [rename_rename]
  exact rename_eq_self inverse

@[simp] theorem isVar_rename (number : Nat → Nat) (term : Term) : (term.rename number).isVar = term.isVar := by
  cases term <;> simp [isVar]

theorem conjuncts_rename (number : Nat → Nat) (term : Term) :
    (term.rename number).conjuncts = term.conjuncts.map (rename number) := by
  fun_induction conjuncts term with
  | case1 left right ih => simp [conjuncts, ih]
  | case2 name left right other => simp [conjuncts, other]
  | case3 goal other =>
    rcases goal with id | value | name | ⟨name, first, _ | ⟨second, _ | ⟨third, rest⟩⟩⟩
    · rfl
    · rfl
    · rfl
    · simp [conjuncts]
    · exact absurd rfl (other name first second)
    · simp [conjuncts]

end Term

/-! ## Specifications -/

namespace LoopIterator

variable (number : Nat → Nat) (iterator : LoopIterator)

theorem localTerms_rename : (iterator.rename number).localTerms = iterator.localTerms.map (Term.rename number) := by
  cases iterator with
  | forEachArg element structured index => cases index <;> simp [rename, localTerms]
  | _ => simp [rename, localTerms]

theorem globalTerms_rename : (iterator.rename number).globalTerms = iterator.globalTerms.map (Term.rename number) := by
  cases iterator <;> simp [rename, globalTerms]

theorem declared_rename : (iterator.rename number).declared = iterator.declared.map number := by
  cases iterator <;> simp [rename, declared]

@[simp] theorem isParam_rename : (iterator.rename number).isParam = iterator.isParam := by
  cases iterator <;> rfl

end LoopIterator

namespace LoopSpec

variable {number : Nat → Nat} {spec : LoopSpec}

/-- A renamed term is read as the renamed specification. -/
theorem ofTerm_rename {term : Term} (number : Nat → Nat) (read : ofTerm term = .ok spec) :
    ofTerm (term.rename number) = .ok (spec.rename number) := by
  have each : ∀ {terms : List Term} {iterators : List LoopIterator},
      terms.mapM LoopIterator.ofTerm = .ok iterators →
      (terms.map (Term.rename number)).mapM LoopIterator.ofTerm =
        .ok (iterators.map (LoopIterator.rename number)) := by
    intro terms
    induction terms with
    | nil =>
      intro iterators read
      obtain rfl : [] = iterators := by injection read
      rfl
    | cons term terms ih =>
      intro iterators read
      rw [List.mapM_cons] at read
      cases head : LoopIterator.ofTerm term with
      | error error => simp [head, bind, Except.bind] at read
      | ok first =>
        cases tail : terms.mapM LoopIterator.ofTerm with
        | error error => simp [head, tail, bind, Except.bind] at read
        | ok rest =>
          obtain rfl : first :: rest = iterators := by
            simpa [head, tail, bind, Except.bind, pure, Except.pure] using read
          rw [List.map_cons, List.mapM_cons, LoopIterator.ofTerm_rename number head, ih tail]
          rfl
  rw [ofTerm] at read ⊢
  rw [Term.conjuncts_rename]
  cases found : term.conjuncts.mapM LoopIterator.ofTerm with
  | error error => simp [found, Except.map] at read
  | ok iterators =>
    rw [each found]
    simp only [found, Except.map, Except.ok.injEq] at read ⊢
    rw [← read]
    cases iterators <;> rfl

/-- A term whose renaming can be read can be read. -/
theorem exists_of_ofTerm_rename {term : Term} (injective : InjectiveOn number term.occurrences) {renamed : LoopSpec}
    (read : ofTerm (term.rename number) = .ok renamed) : ∃ spec, ofTerm term = .ok spec := by
  obtain ⟨back, inverse⟩ := injective.exists_inverse
  have again := ofTerm_rename back read
  rw [Term.rename_inverse inverse] at again
  exact ⟨_, again⟩

section

variable (injective : InjectiveOn number spec.occurrences)
include injective

theorem localVars_rename : (spec.rename number).localVars = spec.localVars.map number := by
  have terms : (spec.rename number).iterators.flatMap LoopIterator.localTerms =
      (spec.iterators.flatMap LoopIterator.localTerms).map (Term.rename number) := by
    simp [iterators_rename, List.flatMap_map, List.map_flatMap, LoopIterator.localTerms_rename]
  rw [localVars, localVars, terms]
  exact Term.varsAll_rename (injective.mono fun id occurs =>
    mem_occurrences_of_localVars (VarSet.mem_ofList.mpr occurs))

theorem globalVars_rename : (spec.rename number).globalVars = spec.globalVars.map number := by
  have terms : (spec.rename number).iterators.flatMap LoopIterator.globalTerms =
      (spec.iterators.flatMap LoopIterator.globalTerms).map (Term.rename number) := by
    simp [iterators_rename, List.flatMap_map, List.map_flatMap, LoopIterator.globalTerms_rename]
  rw [globalVars, globalVars, terms]
  exact Term.varsAll_rename (injective.mono fun id occurs =>
    mem_occurrences_of_globalVars (VarSet.mem_ofList.mpr occurs))

theorem declared_rename : (spec.rename number).declared = spec.declared.map number := by
  have lists : (spec.rename number).iterators.flatMap LoopIterator.declared =
      (spec.iterators.flatMap LoopIterator.declared).map number := by
    simp [iterators_rename, List.flatMap_map, List.map_flatMap, LoopIterator.declared_rename]
  rw [declared, declared, lists, VarSet.map_ofList]
  exact injective.mono fun id member => mem_occurrences_of_declared (VarSet.mem_ofList.mpr member)

end

/-- Variants share the same with surroundings in which the same of their variables occur. -/
theorem shared_rename {body : Term} {outside outside' : VarSet}
    (injective : InjectiveOn number (spec.occurrences ++ body.occurrences))
    (around : ∀ id ∈ spec.occurrences ++ body.occurrences, number id ∈ outside' ↔ id ∈ outside) :
    (spec.rename number).shared (body.rename number) outside' = (spec.shared body outside).map number := by
  have inSpec : InjectiveOn number spec.occurrences := injective.mono fun _ => List.mem_append_left _
  have inBody : InjectiveOn number body.occurrences := injective.mono fun _ => List.mem_append_right _
  have used : (body.vars.map number).filter (fun id =>
        id ∉ spec.localVars.map number && (id ∈ outside' || id ∈ spec.globalVars.map number)) =
      (body.vars.filter fun id => id ∉ spec.localVars && (id ∈ outside || id ∈ spec.globalVars)).map number := by
    rw [List.filter_map]
    congr 1
    apply List.filter_congr
    intro id member
    have inside : id ∈ spec.occurrences ++ body.occurrences := List.mem_append_right _ (Term.mem_vars.mp member)
    have locals : number id ∈ spec.localVars.map number ↔ id ∈ spec.localVars :=
      injective.mem_map inside fun _ inside => List.mem_append_left _ (mem_occurrences_of_localVars inside)
    have globals : number id ∈ spec.globalVars.map number ↔ id ∈ spec.globalVars :=
      injective.mem_map inside fun _ inside => List.mem_append_left _ (mem_occurrences_of_globalVars inside)
    simp only [Function.comp_apply, locals, globals, around id inside]
  have declares : (spec.declared.map number).filter (· ∈ outside') =
      (spec.declared.filter (· ∈ outside)).map number := by
    rw [List.filter_map]
    congr 1
    apply List.filter_congr
    intro id member
    have inside : id ∈ spec.occurrences ++ body.occurrences :=
      List.mem_append_left _ (mem_occurrences_of_declared member)
    simp only [Function.comp_apply, around id inside]
  rw [shared, shared, Term.vars_rename inBody, localVars_rename inSpec, globalVars_rename inSpec,
    declared_rename inSpec, used, declares, VarSet.map_extend]
  apply injective.mono
  intro id member
  rcases List.mem_append.mp member with member | member
  · exact List.mem_append_right _ (Term.mem_vars.mp (List.mem_filter.mp member).1)
  · exact List.mem_append_left _ (mem_occurrences_of_declared (List.mem_filter.mp member).1)

theorem withParams_rename (number : Nat → Nat) (spec : LoopSpec) (shared : VarSet) :
    (spec.rename number).withParams (shared.map number) = (spec.withParams shared).rename number := by
  have others : (spec.rename number).iterators.filter (fun iterator => !iterator.isParam) =
      (spec.iterators.filter fun iterator => !iterator.isParam).map (LoopIterator.rename number) := by
    rw [iterators_rename, List.filter_map]
    congr 1
    apply List.filter_congr
    intro iterator _
    simp
  have made (iterators : List LoopIterator) :
      ofIterators (iterators.map (LoopIterator.rename number)) = (ofIterators iterators).rename number := by
    cases iterators <;> rfl
  rw [withParams, withParams, others]
  cases shared with
  | nil => exact made _
  | cons id shared => exact made (.param (id :: shared) :: _)

end LoopSpec

/-- The loop that is compiled has only variables of the loop that was given. -/
theorem LoopSpec.mem_occurrences_of_settled (read : ofTerm specs = .ok spec)
    (member : id ∈ (spec.withParams (spec.shared body outside)).occurrences ++ body.occurrences) :
    id ∈ specs.occurrences ++ body.occurrences := by
  rw [← occurrences_of_ofTerm read]
  rcases List.mem_append.mp member with member | member
  · rcases mem_occurrences_of_withParams member with member | member
    · exact mem_occurrences_of_shared member
    · exact List.mem_append_left _ member
  · exact List.mem_append_right _ member

/-- Variants of a loop in surroundings that correspond to each other are compiled as variants. -/
theorem LoopSpec.rename_settled {outside' : VarSet} (read : ofTerm specs = .ok spec)
    (injective : InjectiveOn number (specs.occurrences ++ body.occurrences))
    (around : ∀ id ∈ specs.occurrences ++ body.occurrences, number id ∈ outside' ↔ id ∈ outside) :
    (spec.rename number).withParams ((spec.rename number).shared (body.rename number) outside') =
      (spec.withParams (spec.shared body outside)).rename number := by
  rw [← occurrences_of_ofTerm read] at injective around
  rw [shared_rename injective around, withParams_rename]

/-! ## Names in threads -/

/-- A property of names that only names of procedures may lack. -/
def Ordinary (allowed : String → Prop) : Prop :=
  ∀ name : String, name.toList.take 4 ≠ ['d', 'o', '_', '_'] → allowed name

/-- All names in some terms have a property. -/
def Mentions (allowed : String → Prop) (terms : List Term) : Prop := ∀ term ∈ terms, term.Named allowed

section

variable {allowed : String → Prop}

@[simp] theorem mentions_nil : Mentions allowed [] := by simp [Mentions]

variable {term : Term} {spec : LoopSpec}

@[simp] theorem mentions_cons {terms : List Term} :
    Mentions allowed (term :: terms) ↔ term.Named allowed ∧ Mentions allowed terms := by
  simp [Mentions]

@[simp] theorem mentions_append {front back : List Term} :
    Mentions allowed (front ++ back) ↔ Mentions allowed front ∧ Mentions allowed back := by
  simp only [Mentions, List.forall_mem_append]

/-- All names in threads have a property. -/
structure Threads.Mentions (allowed : String → Prop) (threads : Threads) : Prop where
  /-- Those in the arguments of the first call. -/
  initial : HornLoops.Mentions allowed threads.initial
  /-- Those in the arguments that end the loop. -/
  terminal : HornLoops.Mentions allowed threads.terminal
  /-- Those in the goals before the first call. -/
  prelude : HornLoops.Mentions allowed threads.prelude
  /-- Those in the arguments that start an iteration. -/
  head : HornLoops.Mentions allowed threads.head
  /-- Those in the goals at the start of an iteration. -/
  steps : HornLoops.Mentions allowed threads.steps
  /-- Those in the arguments of the call after an iteration. -/
  call : HornLoops.Mentions allowed threads.call

theorem Threads.Mentions.append {left right : Threads} (first : left.Mentions allowed)
    (second : right.Mentions allowed) : (left.append right).Mentions allowed where
  initial := mentions_append.mpr ⟨first.initial, second.initial⟩
  terminal := mentions_append.mpr ⟨first.terminal, second.terminal⟩
  prelude := mentions_append.mpr ⟨first.prelude, second.prelude⟩
  head := mentions_append.mpr ⟨first.head, second.head⟩
  steps := mentions_append.mpr ⟨first.steps, second.steps⟩
  call := mentions_append.mpr ⟨first.call, second.call⟩

namespace LoopIterator

variable (ordinary : Ordinary allowed)
include ordinary

theorem named_plus {term : Term} {constant : Int64} : (Goal.plus term constant).Named allowed ↔ term.Named allowed := by
  have plus := ordinary "+" (by decide)
  have minus := ordinary "-" (by decide)
  unfold Goal.plus
  split
  · split <;> simp [Term.binary, plus, minus]
  · simp [Term.binary, plus]

theorem named_evaluate {target expression : Term} :
    (Goal.evaluate target expression).Named allowed ↔ target.Named allowed ∧ expression.Named allowed := by
  simp [Goal.evaluate, Term.binary, ordinary "is" (by decide)]

theorem named_openLimit {stop start max : Term} :
    (openLimit stop start max).Named allowed ↔ stop.Named allowed ∧ start.Named allowed ∧ max.Named allowed := by
  simp only [openLimit, Term.binary, Term.unary, Term.named_compound, named_evaluate ordinary, ordinary ";" (by decide),
    ordinary "->" (by decide), ordinary "var" (by decide), ordinary "=" (by decide), ordinary "max" (by decide),
    List.forall_mem_cons]
  tauto

/-- Threads mention no names but those of their iterator and a few fixed ones. -/
theorem mentions_threads (iterator : LoopIterator) (own : iterator.toTerm.Named allowed) :
    Yields (Threads.Mentions allowed) iterator.threads := by
  have dot := ordinary "." (by decide)
  have nil := ordinary "[]" (by decide)
  have functor := ordinary "functor" (by decide)
  have arg := ordinary "arg" (by decide)
  have eq := ordinary "=" (by decide)
  have max := ordinary "max" (by decide)
  have min := ordinary "min" (by decide)
  intro next threads after threaded
  cases Draws.of_threads threaded with
  | elements element list =>
    simp only [toTerm, Term.named_build, List.forall_mem_cons] at own
    constructor <;> simp [Term.nil, Term.cons, Term.binary, own, dot, nil]
  | arguments element position | unknownArguments element id position =>
    simp only [toTerm, Term.named_build, List.forall_mem_append, List.forall_mem_cons] at own
    cases position <;> constructor <;>
      simp_all [argumentThreads, Term.build, Term.binary, named_evaluate ordinary, named_plus ordinary]
  | range index =>
    simp only [toTerm, Term.named_build, List.forall_mem_cons] at own
    constructor <;> simp [closedCounter, named_evaluate ordinary, named_plus ordinary, own]
  | rangeTo index _ _ _ unit | rangeFrom index _ _ unit =>
    simp only [toTerm, Term.named_build, List.forall_mem_cons] at own
    rcases unit with ⟨_, rfl⟩ | ⟨_, rfl⟩ <;> constructor <;>
      simp [openCounter, Term.binary, named_evaluate ordinary, named_plus ordinary, max, min, own]
  | count index =>
    simp only [toTerm, Term.named_build, List.forall_mem_cons] at own
    constructor <;> simp [closedCounter, named_evaluate ordinary, named_plus ordinary, own]
  | countTo index =>
    simp only [toTerm, Term.named_build, List.forall_mem_cons] at own
    constructor <;> simp [openCounter, named_openLimit ordinary, named_evaluate ordinary, named_plus ordinary, own]
  | @countFrom index first limit =>
    simp only [toTerm, Term.named_build, List.forall_mem_cons] at own
    cases limit.constant? <;> constructor <;>
      simp [openCounter, Term.binary, named_openLimit ordinary, named_evaluate ordinary, named_plus ordinary, max, own]
  | value first current following | openValue first current following =>
    simp only [toTerm, Term.named_build, List.forall_mem_cons] at own
    constructor <;> simp [own]
  | params vars => constructor <;> simp [HornLoops.Mentions, threadParams]

end LoopIterator

/-- Threads of a loop mention no names but those of its iterators and a few fixed ones. -/
theorem LoopSpec.mentions_threads (ordinary : Ordinary allowed)
    (own : ∀ iterator ∈ spec.iterators, iterator.toTerm.Named allowed) :
    Yields (Threads.Mentions allowed) spec.threads :=
  yields_threads (by constructor <;> simp) .append fun iterator member =>
    iterator.mentions_threads ordinary (own iterator member)

/-- An iterator mentions no names but those of the term it was read from. -/
theorem LoopIterator.named_of_ofTerm {iterator : LoopIterator} (read : ofTerm term = .ok iterator)
    (own : term.Named allowed) : iterator.toTerm.Named allowed := by
  unfold ofTerm at read
  split at read
  case h_8 args name _ =>
    split at read
    · rename_i vars found
      rw [Except.ok.injEq] at read
      cases term <;> simp_all [Term.nameArity?, ← read, toTerm, Term.named_build]
    · contradiction
  case h_9 => contradiction
  all_goals
    rw [Except.ok.injEq] at read
    cases term <;> simp_all [Term.nameArity?, Term.args, ← read, toTerm, Term.named_build]

/-- Goals of a conjunction mention no names but those of the conjunction. -/
theorem Term.named_conjuncts (own : term.Named allowed) : Mentions allowed term.conjuncts := by
  fun_induction conjuncts term with
  | case1 left right ih =>
    simp only [named_compound, List.forall_mem_singleton] at own
    exact mentions_cons.mpr ⟨own.2.1, ih own.2.2⟩
  | case2 => simpa using own
  | case3 => simpa using own

/-- The iterators of a specification mention no names but those of the term it was read from. -/
theorem LoopSpec.named_of_ofTerm (ordinary : Ordinary allowed) (read : ofTerm term = .ok spec)
    (own : term.Named allowed) : ∀ iterator ∈ spec.iterators, iterator.toTerm.Named allowed := by
  rw [ofTerm] at read
  cases found : term.conjuncts.mapM LoopIterator.ofTerm with
  | error error => simp [found, Except.map] at read
  | ok iterators =>
    simp only [found, Except.map, Except.ok.injEq] at read
    have each : ∀ iterator ∈ iterators, iterator.toTerm.Named allowed := by
      intro iterator member
      obtain ⟨goal, inside, read⟩ := exists_term_of_mapM found member
      exact LoopIterator.named_of_ofTerm read (Term.named_conjuncts own goal inside)
    subst read
    cases iterators with
    | nil => simpa [ofIterators, LoopSpec.iterators, LoopIterator.toTerm, Term.build] using ordinary "param" (by decide)
    | cons first rest => exact each

/-- Parameters bring no names. -/
theorem LoopSpec.named_withParams (ordinary : Ordinary allowed)
    (own : ∀ iterator ∈ spec.iterators, iterator.toTerm.Named allowed) (shared : VarSet) :
    ∀ iterator ∈ (spec.withParams shared).iterators, iterator.toTerm.Named allowed := by
  have param (vars : List Nat) : (LoopIterator.param vars).toTerm.Named allowed := by
    simpa [LoopIterator.toTerm, Term.named_build] using ordinary "param" (by decide)
  have others : ∀ iterator ∈ spec.iterators.filter (fun iterator => !iterator.isParam),
      iterator.toTerm.Named allowed := fun iterator member => own iterator (List.mem_filter.mp member).1
  rw [withParams]
  generalize spec.iterators.filter (fun iterator => !iterator.isParam) = kept at others
  split
  · cases kept with
    | nil => simpa [ofIterators, LoopSpec.iterators] using param []
    | cons first rest => exact others
  · exact List.forall_mem_cons.mpr ⟨param shared, others⟩

/-- A conjunction brings only the names that goals are joined with. -/
theorem Term.named_conjunction (ordinary : Ordinary allowed) {goals : List Term} (own : Mentions allowed goals) :
    (conjunction goals).Named allowed := by
  refine conjunction_induction (named_atom.mpr (ordinary "true" (by decide))) (fun left right first second => ?_) own
  simpa [both, binary, first, ordinary "," (by decide)] using second

/-- A loop mentions only allowed names if its iterators and its body do. -/
theorem Signature.named_ofLoop (ordinary : Ordinary allowed) {body : Term} :
    (Signature.ofLoop spec.toTerm body).shape.Named allowed ↔
      (∀ iterator ∈ spec.iterators, iterator.toTerm.Named allowed) ∧ body.Named allowed := by
  have specs : spec.toTerm.Named allowed ↔ ∀ iterator ∈ spec.iterators, iterator.toTerm.Named allowed := by
    refine ⟨LoopSpec.named_of_ofTerm ordinary spec.ofTerm_toTerm, fun own => Term.named_conjunction ordinary ?_⟩
    intro goal member
    obtain ⟨iterator, inside, rfl⟩ := List.mem_map.mp member
    exact own iterator inside
  simp only [ofLoop, Term.normalize, Term.named_rename, Term.binary, Term.named_compound, List.forall_mem_singleton,
    specs, ordinary "do" (by decide), true_and]

end

end HornLoops
