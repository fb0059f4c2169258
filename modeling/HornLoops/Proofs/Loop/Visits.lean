import HornLoops.Proofs.Loop.Agreement
import HornLoops.Proofs.Loop.Context
import HornLoops.Proofs.Loop.Registry
import HornLoops.Proofs.Loop.Settling

/-!
# The loops that are met

Settling meets every loop of a goal. Compiling meets a loop inside the body of another one only if a procedure is made
for the loop around it. Both meet loops in the same order, and a loop that both meet shares the same variables: the
parameters in the settled goal are those in the signature under which the loop is compiled.
-/

namespace HornLoops

/-- The part of a term that is reached by going down to one argument after the other. -/
def Term.subterm? : List Nat → Term → Option Term
  | [], term => some term
  | index :: place, term => term.args[index]? >>= subterm? place

/-! ## Visits -/

/-- A loop that was met. -/
structure Visit where
  /-- Where the loop is. -/
  place : List Nat
  /-- Its iterators as they were given. -/
  spec : LoopSpec
  /-- The variables that it shares with its surroundings. -/
  shared : VarSet
  /-- Its body as it was given. -/
  body : Term
deriving DecidableEq, Repr

namespace Visit

/-- The loop that a goal is, with some variables around it. -/
def here (spec : LoopSpec) (body : Term) (outside : VarSet) : Visit := ⟨[], spec, spec.shared body outside, body⟩

/-- The iterators with the shared variables for parameters. -/
def settled (visit : Visit) : LoopSpec := visit.spec.withParams visit.shared

/-- The signature under which the loop is compiled. -/
def signature (visit : Visit) : Signature := .ofLoop visit.settled.toTerm visit.body

/-- How the declared parameters differ from the shared variables. -/
def mismatch? (visit : Visit) : Option ParamMismatch := paramMismatch? visit.shared visit.spec.declared

/-- The same loop, seen from a goal that has the goal around it for an argument. -/
def under (index : Nat) (visit : Visit) : Visit := { visit with place := index :: visit.place }

/-- The findings about a loop are how its parameters differ. -/
theorem map_ofMismatch (procedure : String) (visit : Visit) :
    (Diagnostic.ofMismatch procedure visit.mismatch?).map (·.mismatch) = [visit].filterMap mismatch? := by
  cases found : visit.mismatch? <;> simp [Diagnostic.ofMismatch, found]

theorem filterMap_under (index : Nat) (visits : List Visit) :
    (visits.map (under index)).filterMap mismatch? = visits.filterMap mismatch? := by
  rw [List.filterMap_map]
  rfl

end Visit

/-- The loops of a goal with some variables around it. A loop comes after those inside its body. -/
def Term.loops : Term → VarSet → List Visit
  | .compound name inner [], outside => if isModality name then (inner.loops outside).map (.under 0) else []
  | .compound name left [right], outside =>
    if isJunction name then
      (left.loops (outside.extend right.occurrences)).map (.under 0) ++
        (right.loops (outside.extend left.occurrences)).map (.under 1)
    else if name = "do" && !left.isVar then
      match LoopSpec.ofTerm left with
      | .error _ => []
      | .ok spec =>
        (right.loops (spec.localVars.extend (spec.shared right outside))).map (.under 1) ++ [.here spec right outside]
    else []
  | _, _ => []

namespace Term

theorem loops_modality {name : String} (walked : isModality name = true) (inner : Term) (outside : VarSet) :
    (unary name inner).loops outside = (inner.loops outside).map (.under 0) := by
  simp only [unary, loops, walked, if_true]

theorem loops_junction {name : String} (walked : isJunction name = true) (left right : Term) (outside : VarSet) :
    (binary name left right).loops outside = (left.loops (outside.extend right.occurrences)).map (.under 0) ++
      (right.loops (outside.extend left.occurrences)).map (.under 1) := by
  simp only [binary, loops, walked, if_true]

theorem loops_loop {specs : Term} (known : specs.isVar = false) (body : Term) (outside : VarSet) {spec : LoopSpec}
    (read : LoopSpec.ofTerm specs = .ok spec) :
    (binary "do" specs body).loops outside =
      (body.loops (spec.localVars.extend (spec.shared body outside))).map (.under 1) ++
        [.here spec body outside] := by
  have other : isJunction "do" = false := by decide
  simp [binary, loops, other, known, read]

theorem loops_leaf {goal : Term} (leaf : IsLeaf goal) (outside : VarSet) : goal.loops outside = [] := by
  match goal with
  | .var _ => rfl
  | .int _ => rfl
  | .atom _ => rfl
  | .compound name first [] =>
    have skipped : isModality name = false := leaf
    simp [loops, skipped]
  | .compound name left [right] =>
    obtain ⟨skipped, unknown⟩ := leaf
    by_cases named : name = "do"
    · simp [loops, skipped, unknown named]
    · simp [loops, skipped, named]
  | .compound _ _ (_ :: _ :: _) => rfl

end Term

/-! ## Settling -/

/-- A loop is in a goal, and in place of it there is a loop with the shared variables for parameters in another goal. -/
def Visit.Placed (goal settled : Term) (visit : Visit) : Prop :=
  ∃ specs body, goal.subterm? visit.place = some (.binary "do" specs visit.body) ∧
    LoopSpec.ofTerm specs = .ok visit.spec ∧
    settled.subterm? visit.place = some (.binary "do" visit.settled.toTerm body)

/-- A loop keeps its place if a goal becomes an argument. -/
theorem Visit.Placed.under {goal settled : Term} {visit : Visit} (placed : visit.Placed goal settled)
    {whole whole' : Term} {index : Nat} (part : whole.args[index]? = some goal)
    (part' : whole'.args[index]? = some settled) : (visit.under index).Placed whole whole' := by
  obtain ⟨specs, body, here, read, there⟩ := placed
  refine ⟨specs, body, ?_, read, ?_⟩
  · show (whole.args[index]? >>= Term.subterm? visit.place) = _
    rw [part]
    exact here
  · show (whole'.args[index]? >>= Term.subterm? visit.place) = _
    rw [part']
    exact there

/-- What settling the loops of a goal has to do with the loops. -/
structure Settles (visits : List Visit) (goal : Term) (treated : Treated) : Prop where
  /-- The findings are about these loops, in this order. -/
  found : treated.2.map (·.mismatch) = visits.filterMap (·.mismatch?)
  /-- The settled loops are in the place of the loops. -/
  placed : ∀ visit ∈ visits, visit.Placed goal treated.1

/-- Settling a goal meets all its loops. -/
theorem settles_settleGoal {goal : Term} {outside : VarSet} {treated : Treated}
    (ended : settleGoal goal outside = .ok treated) : Settles (goal.loops outside) goal treated := by
  have settled := settleGoal_eq_ok.mp ended
  clear ended
  induction settled with
  | modality walked _ ih =>
    rw [Term.loops_modality walked]
    constructor
    · rw [Visit.filterMap_under]
      exact ih.found
    · exact List.forall_mem_map.mpr fun visit member => (ih.placed visit member).under rfl rfl
  | junction walked _ _ first second =>
    rw [Term.loops_junction walked]
    constructor
    · rw [List.map_append, List.filterMap_append, Visit.filterMap_under, Visit.filterMap_under, ← first.found,
        ← second.found]
    · refine List.forall_mem_append.mpr ⟨List.forall_mem_map.mpr ?_, List.forall_mem_map.mpr ?_⟩
      · exact fun visit member => (first.placed visit member).under rfl rfl
      · exact fun visit member => (second.placed visit member).under rfl rfl
  | @loop outside specs body spec treated read _ ih =>
    rw [Term.loops_loop (LoopSpec.isVar_eq_false_of_ofTerm read) body outside read]
    constructor
    · rw [List.map_append, List.filterMap_append, Visit.filterMap_under, ← ih.found]
      exact congrArg _ (Visit.map_ofMismatch "do" (.here spec body outside))
    · refine List.forall_mem_append.mpr ⟨List.forall_mem_map.mpr ?_, List.forall_mem_singleton.mpr ?_⟩
      · exact fun visit member => (ih.placed visit member).under rfl rfl
      · exact ⟨specs, treated.1, rfl, read, rfl⟩
  | leaf leaf =>
    rw [Term.loops_leaf leaf]
    exact ⟨rfl, fun _ member => absurd member List.not_mem_nil⟩

/-! ## Compiling -/

namespace Compiler

/-- The loops that are met when a goal is compiled. A loop comes after those inside its body, which are met only if there
is no procedure for it. -/
def visits : Term → VarSet → Compilation → List Visit
  | .compound name inner [], outside, before =>
    if isModality name then (visits inner outside before).map (.under 0) else []
  | .compound name left [right], outside, before =>
    if isJunction name then
      (visits left (outside.extend right.occurrences) before).map (.under 0) ++
        match expandGoal left (outside.extend right.occurrences) before with
        | .error _ _ => []
        | .ok _ between => (visits right (outside.extend left.occurrences) between).map (.under 1)
    else if name = "do" && !left.isVar then
      match LoopSpec.ofTerm left with
      | .error _ => []
      | .ok spec =>
        let visit := Visit.here spec right outside
        match visit.settled.threads before.next with
        | .error _ _ => []
        | .ok threads next =>
          match before.procedures.registered? visit.signature with
          | some _ => [visit]
          | none => (visits right threads.context ⟨next, before.procedures.issue⟩).map (.under 1) ++ [visit]
    else []
  | _, _, _ => []

variable {name : String} {specs goal : Term} {outside : VarSet} {treated : Treated} {before after : Compilation}

theorem visits_modality (walked : isModality name = true) (inner : Term) (outside : VarSet) (before : Compilation) :
    visits (.unary name inner) outside before = (visits inner outside before).map (.under 0) := by
  simp only [Term.unary, visits, walked, if_true]

theorem visits_junction (walked : isJunction name = true) (left right : Term) (outside : VarSet)
    (before : Compilation) :
    visits (.binary name left right) outside before =
      (visits left (outside.extend right.occurrences) before).map (.under 0) ++
        match expandGoal left (outside.extend right.occurrences) before with
        | .error _ _ => []
        | .ok _ between => (visits right (outside.extend left.occurrences) between).map (.under 1) := by
  simp only [Term.binary, visits, walked, if_true]

theorem visits_loop (known : specs.isVar = false) (body : Term) (outside : VarSet) (before : Compilation) :
    visits (.binary "do" specs body) outside before =
      match LoopSpec.ofTerm specs with
      | .error _ => []
      | .ok spec =>
        let visit := Visit.here spec body outside
        match visit.settled.threads before.next with
        | .error _ _ => []
        | .ok threads next =>
          match before.procedures.registered? visit.signature with
          | some _ => [visit]
          | none => (visits body threads.context ⟨next, before.procedures.issue⟩).map (.under 1) ++ [visit] := by
  have other : isJunction "do" = false := by decide
  simp [Term.binary, visits, other, known]

theorem visits_leaf (leaf : IsLeaf goal) (outside : VarSet) (before : Compilation) :
    visits goal outside before = [] := by
  match goal with
  | .var _ => rfl
  | .int _ => rfl
  | .atom _ => rfl
  | .compound name first [] =>
    have skipped : isModality name = false := leaf
    simp [visits, skipped]
  | .compound name left [right] =>
    obtain ⟨skipped, unknown⟩ := leaf
    by_cases named : name = "do"
    · simp [visits, skipped, unknown named]
    · simp [visits, skipped, named]
  | .compound _ _ (_ :: _ :: _) => rfl

/-- What compiling has to do with the loops that are met. -/
structure Accounts (visits : List Visit) (before : Compilation) (findings : List Diagnostic) (after : Compilation) :
    Prop where
  /-- Variables are only taken. -/
  taken : before.next ≤ after.next
  /-- Procedures are kept. -/
  kept : before.procedures.entries ⊆ after.procedures.entries
  /-- The findings are about these loops, in this order. -/
  found : findings.map (·.mismatch) = visits.filterMap (·.mismatch?)
  /-- There is a procedure for each of them. -/
  recorded : ∀ visit ∈ visits, Recorded after.procedures.entries visit.signature
  /-- New procedures are for some of them. -/
  origin : ∀ entry ∈ after.procedures.entries,
    entry ∈ before.procedures.entries ∨ ∃ visit ∈ visits, visit.signature = entry.signature
  /-- There are no more new procedures than loops. -/
  grown : after.procedures.size ≤ before.procedures.size + visits.length

namespace Accounts

variable {visits more : List Visit} {before between after : Compilation} {findings findings' : List Diagnostic}

theorem refl (before : Compilation) : Accounts [] before [] before where
  taken := Nat.le_refl _
  kept := List.Subset.refl _
  found := rfl
  recorded _ member := absurd member List.not_mem_nil
  origin _ member := .inl member
  grown := Nat.le_refl _

/-- It does not matter where the loops are. -/
theorem under (accounts : Accounts visits before findings after) (index : Nat) :
    Accounts (visits.map (.under index)) before findings after where
  taken := accounts.taken
  kept := accounts.kept
  found := by
    rw [Visit.filterMap_under]
    exact accounts.found
  recorded := List.forall_mem_map.mpr accounts.recorded
  origin := by
    intro entry member
    rcases accounts.origin entry member with old | ⟨visit, inside, same⟩
    · exact .inl old
    · exact .inr ⟨visit.under index, List.mem_map_of_mem inside, same⟩
  grown := by
    rw [List.length_map]
    exact accounts.grown

theorem append (first : Accounts visits before findings between) (second : Accounts more between findings' after) :
    Accounts (visits ++ more) before (findings ++ findings') after where
  taken := Nat.le_trans first.taken second.taken
  kept := List.Subset.trans first.kept second.kept
  found := by rw [List.map_append, List.filterMap_append, first.found, second.found]
  recorded := List.forall_mem_append.mpr
    ⟨fun visit member => (first.recorded visit member).mono second.kept, second.recorded⟩
  origin := by
    intro entry member
    rcases second.origin entry member with member | ⟨visit, inside, same⟩
    · rcases first.origin entry member with old | ⟨visit, inside, same⟩
      · exact .inl old
      · exact .inr ⟨visit, List.mem_append_left _ inside, same⟩
    · exact .inr ⟨visit, List.mem_append_right _ inside, same⟩
  grown := by
    have grown := first.grown
    have grown' := second.grown
    rw [List.length_append]
    omega

/-- A loop that there is a procedure for needs nothing but variables. -/
theorem reuse {visit : Visit} {registration : Registration} {next : Nat} (taken : before.next ≤ next)
    (found : before.procedures.registered? visit.signature = some registration) :
    Accounts [visit] before (Diagnostic.ofMismatch registration.name visit.mismatch?) { before with next := next } where
  taken := taken
  kept := List.Subset.refl _
  found := Visit.map_ofMismatch registration.name visit
  recorded := List.forall_mem_singleton.mpr <| by
    obtain ⟨entry, there, same, _⟩ := exists_entry_of_registered? found
    exact ⟨entry, List.mem_of_getElem? there, same⟩
  origin _ member := .inl member
  grown := Nat.le_succ _

/-- A procedure is added for a loop. -/
theorem make (visit : Visit) (before : Compilation) (procedure : Procedure) (name : String) :
    Accounts [visit] before (Diagnostic.ofMismatch name visit.mismatch?)
      { before with procedures := (before.procedures.add visit.signature procedure).2 } where
  taken := Nat.le_refl _
  kept := (Procedures.isPrefix_add _ _ _).subset
  found := Visit.map_ofMismatch name visit
  recorded := List.forall_mem_singleton.mpr (before.procedures.recorded_add visit.signature procedure)
  origin := by
    intro entry member
    rcases Procedures.mem_entries_add member with old | same
    · exact .inl old
    · exact .inr ⟨visit, List.mem_singleton_self _, same.symm⟩
  grown := by
    unfold Procedures.add
    split
    · exact Nat.le_succ _
    · simp [Procedures.size]

end Accounts

/-- What compiling a loop inside a goal comes to. -/
theorem exists_of_expandGoal_loop {body : Term} (known : specs.isVar = false)
    (ended : expandGoal (.binary "do" specs body) outside before = .ok treated after) :
    ∃ spec threads between registration findings, LoopSpec.ofTerm specs = .ok spec ∧
      (Visit.here spec body outside).settled.threads before.next = .ok threads between ∧
      register (Visit.here spec body outside).signature (makeProcedure threads body)
        { before with next := between } = .ok (registration, findings) after ∧
      treated.2 = findings ++ Diagnostic.ofMismatch registration.name (Visit.here spec body outside).mismatch? := by
  rw [expandGoal, treatGoal_loop _ known] at ended
  obtain ⟨spec, _, reads, afterRead⟩ := exists_of_bind ended
  obtain ⟨read, rfl⟩ := eq_of_ofExcept reads
  obtain ⟨compiled, _, compiles, last⟩ := exists_of_bind afterRead
  obtain ⟨rfl, rfl⟩ := last
  obtain ⟨parsed, _, reads', afterRead'⟩ := exists_of_bind compiles
  obtain ⟨read', rfl⟩ := eq_of_ofExcept reads'
  obtain rfl : spec = parsed := Except.ok.inj (read.symm.trans read')
  obtain ⟨threads, middle, taking, afterThreads⟩ := exists_of_bind afterRead'
  obtain ⟨threaded, state⟩ := eq_of_supplied taking
  obtain ⟨⟨registration, findings⟩, _, registers, last⟩ := exists_of_bind afterThreads
  obtain ⟨rfl, rfl⟩ := last
  rw [state] at registers
  exact ⟨spec, threads, middle.next, registration, findings, read, threaded, registers, rfl⟩

/-- What compiling a goal does is due to the loops that are met. -/
theorem accounts_expandGoal (ended : expandGoal goal outside before = .ok treated after) :
    Accounts (visits goal outside before) before treated.2 after := by
  induction goal using goalInduction generalizing outside before after treated with
  | modality name inner walked ih =>
    rw [expandGoal, treatGoal_modality _ walked] at ended
    obtain ⟨⟨inner', findings⟩, between, expanded, last⟩ := exists_of_bind ended
    obtain ⟨rfl, rfl⟩ := last
    rw [visits_modality walked]
    exact (ih expanded).under 0
  | junction name left right walked ihLeft ihRight =>
    rw [expandGoal, treatGoal_junction _ walked] at ended
    obtain ⟨⟨left', findings⟩, between, expanded, rest⟩ := exists_of_bind ended
    obtain ⟨⟨right', more⟩, _, expanded', last⟩ := exists_of_bind rest
    obtain ⟨rfl, rfl⟩ := last
    rw [← expandGoal] at expanded
    rw [visits_junction walked, expanded]
    exact ((ihLeft expanded).under 0).append ((ihRight expanded').under 1)
  | loop specs body known ih =>
    obtain ⟨spec, threads, between, registration, findings, read, threaded, registers, found⟩ :=
      exists_of_expandGoal_loop known ended
    have taken := LoopSpec.le_of_threads threaded
    rw [found, visits_loop known, read]
    simp only [threaded]
    cases recorded : (Compilation.mk between before.procedures).procedures.registered?
        (Visit.here spec body outside).signature with
    | some registration' =>
      rw [register_found recorded] at registers
      obtain ⟨rfl, rfl⟩ := registers
      exact .reuse taken recorded
    | none =>
      rw [register_made recorded] at registers
      cases making : makeProcedure threads body (Procedures.nameOf before.procedures.issued)
          ⟨between, before.procedures.issue⟩ with
      | error error failed =>
        rw [making] at registers
        contradiction
      | ok made middle =>
        obtain ⟨procedure, findings'⟩ := made
        rw [making] at registers
        obtain ⟨rfl, rfl⟩ := registers
        obtain ⟨⟨body', more⟩, _, expanded, last⟩ := exists_of_bind making
        obtain ⟨rfl, rfl⟩ := last
        have start : Accounts [] before [] ⟨between, before.procedures.issue⟩ :=
          { Accounts.refl before with taken := taken }
        exact (start.append ((ih expanded).under 1)).append (.make _ _ _ _)
  | leaf goal leaf =>
    rw [expandGoal, treatGoal_leaf _ leaf] at ended
    obtain ⟨rfl, rfl⟩ := ended
    rw [visits_leaf leaf]
    exact .refl before

/-! ## Meeting the same loops -/

/-- A loop that is met when a goal is compiled is met when it is settled, in the same order and with the same shared
variables. -/
theorem visits_sublist_loops {outside' : VarSet} (around : ∀ id ∈ goal.occurrences, id ∈ outside' ↔ id ∈ outside)
    (below : goal.Below before.next) : (visits goal outside' before).Sublist (goal.loops outside) := by
  induction goal using goalInduction generalizing outside outside' before with
  | modality name inner walked ih =>
    rw [Term.occurrences_unary] at around
    rw [Term.below_unary] at below
    rw [visits_modality walked, Term.loops_modality walked]
    exact (ih around below).map _
  | junction name left right walked ihLeft ihRight =>
    simp only [Term.below_binary, Term.occurrences_binary, List.forall_mem_append] at around below
    rw [visits_junction walked, Term.loops_junction walked]
    refine ((ihLeft ?_ below.1).map _).append ?_
    · intro id member
      rw [VarSet.mem_extend, VarSet.mem_extend, around.1 id member]
    · split
      · exact List.nil_sublist _
      · next between expanded =>
        refine (ihRight ?_ (below.2.mono (accounts_expandGoal expanded).taken)).map _
        intro id member
        rw [VarSet.mem_extend, VarSet.mem_extend, around.2 id member]
  | loop specs body known ih =>
    simp only [Term.below_binary, Term.occurrences_binary] at around below
    rw [visits_loop known]
    split
    · exact List.nil_sublist _
    · next spec read =>
      have same : Visit.here spec body outside' = .here spec body outside := by
        have shared : spec.shared body outside' = spec.shared body outside := by
          rw [← LoopSpec.occurrences_of_ofTerm read] at around
          exact LoopSpec.shared_congr around
        rw [Visit.here, Visit.here, shared]
      rw [Term.loops_loop known body outside read, same]
      dsimp only
      split
      · exact List.nil_sublist _
      · next threads next threaded =>
        split
        · exact List.sublist_append_right _ _
        · refine ((ih ?_ ?_).map _).append (List.Sublist.refl _)
          · intro id member
            exact LoopSpec.mem_context_withParams threaded (.inl (below.2 id member))
          · exact below.2.mono (LoopSpec.le_of_threads threaded)
  | leaf goal leaf =>
    rw [visits_leaf leaf]
    exact List.nil_sublist _

/-- Settled and compiled loops share the same variables at every depth. What an iteration of a loop can see is, for the
variables of its body, what settling puts around the loops inside the body. So every loop that is met when a goal is
compiled is in the settled goal with the parameters that are in its signature, which is registered; and nothing but the
loops that are met is registered. -/
theorem settled_of_visits :
    (∀ (spec : LoopSpec) (shared : VarSet) (body : Term) (next after : Nat) (threads : Threads),
      (spec.withParams shared).threads next = .ok threads after →
      (∀ id ∈ spec.occurrences ++ shared ++ body.occurrences, id < next ∨ after ≤ id) →
      ∀ id ∈ body.occurrences, id ∈ threads.context ↔ id ∈ spec.localVars.extend shared) ∧
    ∀ (goal : Term) (outside : VarSet) (before after : Compilation) (settled expanded : Treated),
      goal.Below before.next → settleGoal goal outside = .ok settled →
      expandGoal goal outside before = .ok expanded after →
      (∀ visit ∈ visits goal outside before,
        visit.Placed goal settled.1 ∧ Recorded after.procedures.entries visit.signature) ∧
      ∀ entry ∈ after.procedures.entries,
        entry ∈ before.procedures.entries ∨ ∃ visit ∈ visits goal outside before, visit.signature = entry.signature := by
  constructor
  · intro spec shared body next after threads threaded fresh id member
    exact LoopSpec.mem_context_withParams threaded (fresh id (List.mem_append_right _ member))
  · intro goal outside before after settled expanded below settles expands
    have accounts := accounts_expandGoal expands
    have inside : (visits goal outside before).Sublist (goal.loops outside) :=
      visits_sublist_loops (fun id _ => Iff.rfl) below
    refine ⟨fun visit member => ?_, accounts.origin⟩
    exact ⟨(settles_settleGoal settles).placed visit (inside.subset member), accounts.recorded visit member⟩

/-- The loop `foreach(V2, V3), param(V4) do p(V2, V0, V5)` under a negation. -/
def countedBody : Term :=
  .unary "\\+" (.binary "do" (.both (.build "foreach" [.var 2, .var 3]) (.build "param" [.var 4]))
    (.build "p" [.var 2, .var 0, .var 5]))

/-- The iterator `count(V0, 1, V1)`. -/
def countedSpec : LoopSpec := ⟨.count (.var 0) (.int 1) (.var 1), []⟩

/-- A loop that counts, with another one inside. -/
def countedLoops : Term := .binary "do" countedSpec.toTerm countedBody

/-- The inner loop shares what is counted by the loop around it and a variable from outside, settled as well as compiled:
these are the variables that an iteration of the loop around it can see. -/
theorem settled_of_visits_counted :
    ∃ settled expanded after inner outer, settleGoal countedLoops [5] = .ok settled ∧
      expandGoal countedLoops [5] ⟨6, {}⟩ = .ok expanded after ∧ visits countedLoops [5] ⟨6, {}⟩ = [inner, outer] ∧
      inner.shared = [0, 5] ∧ inner.Placed countedLoops settled.1 ∧
      Recorded after.procedures.entries inner.signature ∧ outer.shared = [5] ∧ outer.Placed countedLoops settled.1 ∧
      Recorded after.procedures.entries outer.signature ∧
      ∃ threads between, (countedSpec.withParams [5]).threads 6 = .ok threads between ∧
        ∀ id ∈ countedBody.occurrences, id ∈ threads.context ↔ id ∈ [0, 5] := by
  obtain ⟨visible, agree⟩ := settled_of_visits
  have settles : settleGoal countedLoops [5] = .ok _ := rfl
  have expands : expandGoal countedLoops [5] ⟨6, {}⟩ = .ok _ _ := rfl
  have threaded : (countedSpec.withParams [5]).threads 6 = .ok _ 10 := rfl
  have met : visits countedLoops [5] ⟨6, {}⟩ = [_, _] := rfl
  obtain ⟨both, _⟩ := agree countedLoops [5] ⟨6, {}⟩ _ _ _ (by decide +kernel) settles expands
  rw [met] at both
  obtain ⟨placed, recorded⟩ := both _ List.mem_cons_self
  obtain ⟨placed', recorded'⟩ := both _ (List.mem_cons_of_mem _ List.mem_cons_self)
  exact ⟨_, _, _, _, _, settles, expands, met, rfl, placed, recorded, rfl, placed', recorded', _, _,
    threaded, visible countedSpec [5] countedBody 6 _ _ threaded (by decide +kernel)⟩

/-! ## Findings -/

/-- Compiling a goal finds out part of what settling finds out, in the same order, and all of it if there is a new
procedure for every loop. -/
theorem findings_expandGoal {settled expanded : Treated} (below : goal.Below before.next)
    (settles : settleGoal goal outside = .ok settled) (expands : expandGoal goal outside before = .ok expanded after) :
    (expanded.2.map (·.mismatch)).Sublist (settled.2.map (·.mismatch)) ∧
      (after.procedures.size = before.procedures.size + (goal.loops outside).length →
        expanded.2.map (·.mismatch) = settled.2.map (·.mismatch)) := by
  have accounts := accounts_expandGoal expands
  have inside : (visits goal outside before).Sublist (goal.loops outside) :=
    visits_sublist_loops (fun id _ => Iff.rfl) below
  rw [accounts.found, (settles_settleGoal settles).found]
  refine ⟨inside.filterMap _, fun size => ?_⟩
  have grown := accounts.grown
  have fewer := inside.length_le
  rw [inside.eq_of_length (by omega)]

end Compiler

/-- The goal of a clause or a directive with the variables around it. A fact has the goal `true`. -/
def Term.clauseGoal (clause : Term) : Term × VarSet :=
  match clause.binary? ":-", clause.unary? ":-" with
  | some (head, body), _ => (body, head.vars)
  | none, some goal => (goal, [])
  | none, none => (.truth, [])

/-- The loops of a clause. -/
def Term.clauseLoops (clause : Term) : List Visit := clause.clauseGoal.1.loops clause.clauseGoal.2

theorem Term.below_clauseGoal {clause : Term} {bound : Nat} (below : clause.Below bound) :
    clause.clauseGoal.1.Below bound := by
  unfold clauseGoal
  split
  · next rule =>
    unfold binary? at rule
    split at rule
    · split at rule
      · obtain ⟨rfl, rfl⟩ := Prod.mk.inj (Option.some.inj rule)
        exact (below_compound.mp below).2 _ (List.mem_singleton_self _)
      · contradiction
    · contradiction
  · next directive =>
    unfold unary? at directive
    split at directive
    · split at directive
      · obtain rfl := Option.some.inj directive
        exact (below_compound.mp below).1
      · contradiction
    · contradiction
  · exact fun id member => absurd member List.not_mem_nil

/-- A clause is treated by treating its goal. -/
theorem exists_treatClause {m : Type → Type} [Monad m] [LawfulMonad m] (treat : LoopTreatment m) (clause : Term) :
    ∃ finish : Term → Term, treatClause treat clause =
      treatGoal treat clause.clauseGoal.1 clause.clauseGoal.2 >>= fun treated => pure (finish treated.1, treated.2) := by
  cases rule : clause.binary? ":-" with
  | some parts =>
    refine ⟨.binary ":-" parts.1, ?_⟩
    simp only [treatClause, Term.clauseGoal, rule]
  | none =>
    cases directive : clause.unary? ":-" with
    | some goal =>
      refine ⟨.unary ":-", ?_⟩
      simp only [treatClause, Term.clauseGoal, rule, directive]
    | none =>
      have leaf : IsLeaf .truth := trivial
      refine ⟨fun _ => clause, ?_⟩
      simp only [treatClause, Term.clauseGoal, rule, directive, treatGoal_leaf treat leaf, pure_bind]

namespace Compiler

/-- Compiling a clause reports part of what settling it reports, in the same order. It reports all of it if every loop of
the clause gets a new procedure. -/
theorem findings_expandClause {clause : Term} {before after : Compilation} {settled expanded : Treated}
    (below : clause.Below before.next) (settles : settleClause clause = .ok settled)
    (expands : expandClause clause before = .ok expanded after) :
    (expanded.2.map (·.mismatch)).Sublist (settled.2.map (·.mismatch)) ∧
      (after.procedures.size = before.procedures.size + clause.clauseLoops.length →
        expanded.2.map (·.mismatch) = settled.2.map (·.mismatch)) := by
  obtain ⟨finish, settling⟩ := exists_treatClause settleLoop clause
  obtain ⟨finish', expanding⟩ := exists_treatClause expandLoop clause
  rw [settleClause, settling] at settles
  rw [expandClause, expanding] at expands
  obtain ⟨treated, settledGoal, last⟩ := exists_of_except_bind settles
  obtain rfl := Except.ok.inj last
  obtain ⟨treated', _, expandedGoal, last⟩ := exists_of_bind expands
  obtain ⟨rfl, rfl⟩ := last
  have found := findings_expandGoal (Term.below_clauseGoal below) settledGoal expandedGoal
  exact found

/-- The clause `p :- (foreach(V0, [1]) do (foreach(V1, [2]), param(V2) do true))` over given variables. -/
def unsharedClause (outer inner param : Nat) : Term :=
  .binary ":-" (.atom "p") (.binary "do" (.build "foreach" [.var outer, .cons (.int 1) (.atom "[]")])
    (.binary "do" (.both (.build "foreach" [.var inner, .cons (.int 2) (.atom "[]")]) (.build "param" [.var param]))
      .truth))

/-- A declared parameter that is not shared is found when a clause is compiled. When the clause is compiled again, with
other variables, this is not found out, since the inner loop is not met; settling the clause does find it. -/
theorem findings_lost_by_reuse :
    ∃ first second settled between after, expandClause (unsharedClause 0 1 2) ⟨3, {}⟩ = .ok first between ∧
      first.2.map (·.mismatch) = [⟨[], [2]⟩] ∧ between.next = 5 ∧
      expandClause (unsharedClause 5 6 7) ⟨8, between.procedures⟩ = .ok second after ∧ second.2 = [] ∧
      settleClause (unsharedClause 5 6 7) = .ok settled ∧ settled.2.map (·.mismatch) = [⟨[], [7]⟩] :=
  ⟨_, _, _, _, _, rfl, rfl, rfl, rfl, rfl, rfl, rfl⟩

end Compiler

end HornLoops
