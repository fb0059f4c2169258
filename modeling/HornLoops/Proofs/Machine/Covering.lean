import HornLoops.Proofs.Bindings.Region
import HornLoops.Proofs.Loop.Context
import HornLoops.Proofs.Loop.Registry
import HornLoops.Proofs.Machine.Builtin
import HornLoops.Proofs.Machine.EndsAlike
import HornLoops.Proofs.Machine.Threaded

/-!
# Goals of a region

What a goal of a region asks for belongs to the region. Its parts do, predicates that are built in unify terms of the
region with each other, and the goal of a compiled loop and the start of a plan mention what the iterators of the loop
look at once, what they declare, and new variables.
-/

namespace HornLoops

open Bindings Machine

/-- The goal of a compiled loop mentions variables that its iterators look at once, shared ones, and ones that were
taken for it. -/
theorem Compiler.mem_of_compileLoop {specs body : Term} {shared : Option VarSet} {spec : LoopSpec}
    {loop : CompiledLoop} {before after : Compilation} (read : LoopSpec.ofTerm specs = .ok spec)
    (compiled : compileLoop specs body shared before = .ok loop after) {id : Nat}
    (occurs : id ∈ loop.goal.occurrences) :
    id ∈ spec.globalVars ∨ id ∈ shared.getD spec.declared ∨ before.next ≤ id := by
  obtain ⟨parsed, threads, finish, read', threaded, goal, _⟩ := exists_goal_of_compileLoop compiled
  obtain rfl : parsed = spec := Except.ok.inj (read'.symm.trans read)
  rw [goal, Threads.occurrences_initialGoal] at occurs
  by_cases old : id < before.next
  · rcases LoopSpec.mem_of_entry threaded occurs (.inl old) with looked | declared
    · cases shared with
      | none => exact .inl looked
      | some shared => exact .inl (by simpa using looked)
    · cases shared with
      | none => exact .inr (.inl declared)
      | some shared =>
        rw [Option.map_some, Option.getD_some, LoopSpec.mem_declared_withParams] at declared
        exact .inr (.inl declared)
  · exact .inr (.inr (Nat.le_of_not_lt old))

namespace Region

variable {region : Region} {α β : Type}

/-! ## Parts of terms -/

variable {specs body term : Term} {bindings : Bindings}

theorem Covers.listItems? {items : List Term} (covers : region.Covers term) (found : term.listItems? = some items) :
    region.CoversAll items :=
  covers_list.mp (Term.eq_list_of_listItems? found ▸ covers)

theorem Covers.binary? {name : String} {parts : Term × Term} (covers : region.Covers term)
    (found : term.binary? name = some parts) : region.Covers parts.1 ∧ region.Covers parts.2 := by
  unfold Term.binary? at found
  split at found
  · split at found
    · obtain rfl := Option.some.inj found
      simp only [covers_compound, coversAll_cons] at covers
      exact ⟨covers.1, covers.2.1⟩
    · contradiction
  · contradiction

theorem Covers.mapGoalVars {replace : Nat → Term} (covers : region.Covers term)
    (each : ∀ id, region.inside id → region.Covers (replace id)) : region.Covers (term.mapGoalVars replace) := by
  fun_induction Term.mapGoalVars replace term with
  | case1 id => exact each id (covers_var.mp covers)
  | case2 left right ihLeft ihRight =>
    simp only [covers_compound, coversAll_cons] at covers
    refine covers_compound.mpr ?_
    simpa using ⟨ihLeft covers.1, ihRight covers.2.1⟩
  | case3 name left right other => exact covers
  | case4 term _ _ => exact covers

theorem Confines.covers_conjunction (confines : region.Confines bindings) (covers : region.Covers term) :
    region.Covers (bindings.conjunction term) := by
  have within (levels : Nat) :
      ∀ term, region.Covers term → region.Covers (bindings.conjunctionWithin levels term) := by
    induction levels with
    | zero => exact fun term covers => covers
    | succ levels ih =>
      intro term covers
      refine covers.mapGoalVars fun id inside => ?_
      cases bound : bindings.lookup? id with
      | none => exact covers_var.mpr inside
      | some value => exact ih value (confines.closed id value inside bound)
  exact within _ term covers

/-! ## Predicates that are built in -/

variable (region) in
/-- An effect that unifies terms of the region only. -/
def CoversEffect : Effect → Prop
  | .equate _ lefts rights => region.CoversAll lefts ∧ region.CoversAll rights
  | _ => True

variable (region) in
/-- All effects that a predicate may ask for unify terms of the region only. -/
def CoversResult (result : Except Stop Effect) : Prop := ∀ effect, result = .ok effect → region.CoversEffect effect

namespace CoversResult

theorem of_ok {effect : Effect} (covers : region.CoversEffect effect) : region.CoversResult (.ok effect) := by
  rintro _ ⟨rfl⟩
  exact covers

theorem error (stop : Stop) : region.CoversResult (.error stop) := fun _ impossible => by contradiction

theorem test (holds : Bool) : region.CoversResult (.ok (Builtin.test holds)) := by
  cases holds <;> exact of_ok trivial

theorem equal {left right : Term} (coversLeft : region.Covers left) (coversRight : region.Covers right) :
    region.CoversResult (.ok (Builtin.equal left right)) :=
  of_ok ⟨by simpa using coversLeft, by simpa using coversRight⟩

theorem bind {γ : Type} {action : Except Stop γ} {rest : γ → Except Stop Effect}
    (goesOn : ∀ value, action = .ok value → region.CoversResult (rest value)) :
    region.CoversResult (action >>= rest) := by
  cases ended : action with
  | ok value => exact goesOn value ended
  | error stop => exact error stop

variable {bindings : Bindings} (confines : region.Confines bindings)
include confines

theorem covers_of_resolved {term value : Term} (covers : region.Covers term)
    (ended : Builtin.resolved bindings term = .ok value) : region.Covers value := by
  unfold Builtin.resolved at ended
  split at ended
  · rw [Except.ok.injEq] at ended
    exact ended ▸ confines.covers_resolve covers
  · contradiction

theorem coversAll_newVars (count : Nat) : region.CoversAll (Builtin.newVars bindings count) := by
  intro term member
  obtain ⟨offset, _, rfl⟩ := List.mem_map.mp member
  have room := confines.size
  exact covers_var.mpr (region.new _ (by omega))

theorem nameAndArity {term name arity : Term} (coversTerm : region.Covers term) (coversName : region.Covers name)
    (coversArity : region.Covers arity) (fuel : Nat) :
    region.CoversResult (Builtin.nameAndArity term name arity fuel bindings) := by
  unfold Builtin.nameAndArity
  split
  · split
    · dsimp only
      split
      · exact equal coversTerm (confines.covers_walk coversName)
      · split
        · refine of_ok ⟨by simpa using coversTerm, ?_⟩
          simpa using covers_build.mpr (coversAll_newVars confines _)
        · exact error _
    · exact error _
    · exact error _
  · exact of_ok ⟨by simpa using ⟨coversName, coversArity⟩, by simp⟩
  · exact of_ok ⟨by simpa using ⟨coversName, coversArity⟩, by simpa using confines.covers_walk coversTerm⟩

theorem argument {index term value : Term} (coversTerm : region.Covers term) (coversValue : region.Covers value)
    (fuel : Nat) : region.CoversResult (Builtin.argument index term value fuel bindings) := by
  unfold Builtin.argument
  split
  · split
    · split
      · exact of_ok trivial
      · split
        · rename_i walked _ _ found there
          have covers := confines.covers_walk coversTerm
          rw [walked] at covers
          exact equal coversValue (covers.args found (List.mem_of_getElem? there))
        · exact of_ok trivial
    · exact error _
  · exact error _
  · exact error _

theorem nameAndArguments {term list : Term} (coversTerm : region.Covers term) (coversList : region.Covers list)
    (fuel : Nat) : region.CoversResult (Builtin.nameAndArguments term list fuel bindings) := by
  have covers := confines.covers_walk coversTerm
  unfold Builtin.nameAndArguments
  split
  · refine bind fun whole ended => ?_
    split
    · rename_i items found
      have coversItems := (covers_of_resolved confines coversList ended).listItems? found
      refine bind fun built made => equal coversTerm ?_
      unfold Builtin.ofItems at made
      split at made
      · contradiction
      · rw [Except.ok.injEq] at made
        exact made ▸ (coversAll_cons.mp coversItems).1
      · rw [Except.ok.injEq] at made
        exact made ▸ covers_build.mpr (coversAll_cons.mp coversItems).2
      · contradiction
    · exact error _
  · rename_i walked
    rw [walked, covers_compound] at covers
    exact equal coversList (covers_list.mpr (coversAll_cons.mpr ⟨covers_atom _, covers⟩))
  · exact equal coversList (covers_list.mpr (by simpa using covers))

theorem listLength {list length : Term} (coversList : region.Covers list) (coversLength : region.Covers length)
    (fuel : Nat) : region.CoversResult (Builtin.listLength list length fuel bindings) := by
  refine bind fun whole ended => ?_
  split
  · exact equal coversLength (covers_int _)
  · split
    · split
      · exact of_ok trivial
      · refine of_ok ⟨by simpa using coversList, ?_⟩
        simpa using covers_list.mpr (coversAll_newVars confines _)
    · exact error _
    · exact error _

omit confines in
theorem successor {before after : Term} (coversBefore : region.Covers before) (coversAfter : region.Covers after)
    (fuel : Nat) : region.CoversResult (Builtin.successor before after fuel bindings) := by
  unfold Builtin.successor
  split
  · split
    · exact error _
    · split
      · exact equal coversAfter (covers_int _)
      · exact error _
  · split
    · exact of_ok trivial
    · split
      · exact error _
      · exact equal coversBefore (covers_int _)
  · exact error _
  · exact error _

/-- What is built in deals with its arguments and with new variables. -/
theorem of_kind {args : List Term} {action : Builtin} (kind : Builtin.Kind args action) (covers : region.CoversAll args)
    (fuel : Nat) : region.CoversResult (action fuel bindings) := by
  cases kind with
  | equal left right => exact equal (covers _ (by simp)) (covers _ (by simp))
  | differ left right =>
    unfold Builtin.differ
    split
    · exact test _
    · exact error _
  | compareTerms holds left right => exact bind fun _ _ => bind fun _ _ => test _
  | evaluate target expression => exact bind fun value _ => equal (covers _ (by simp)) (covers_int value)
  | compare holds left right => exact bind fun _ _ => bind fun _ _ => test _
  | inspect holds term => exact test _
  | isList term => exact bind fun _ _ => test _
  | nameAndArity term name arity =>
    exact nameAndArity confines (covers _ (by simp)) (covers _ (by simp)) (covers _ (by simp)) fuel
  | argument index term value => exact argument confines (covers _ (by simp)) (covers _ (by simp)) fuel
  | nameAndArguments term list => exact nameAndArguments confines (covers _ (by simp)) (covers _ (by simp)) fuel
  | listLength list length => exact listLength confines (covers _ (by simp)) (covers _ (by simp)) fuel
  | atomLength atom length =>
    unfold Builtin.atomLength
    split
    · exact equal (covers _ (by simp)) (covers_int _)
    · exact error _
    · exact error _
  | successor before after => exact successor (covers _ (by simp)) (covers _ (by simp)) fuel
  | output term after => exact bind fun _ _ => of_ok trivial
  | newline => exact of_ok trivial

end CoversResult

/-! ## Goals -/

variable (region) in
/-- A goal that deals with terms of the region only. -/
def CoversGoal : Goal → Prop
  | .succeed | .fail | .cut => True
  | .both left right | .either left right | .ifThen left right | .loop left right =>
    region.Covers left ∧ region.Covers right
  | .unless inner => region.Covers inner
  | .call target extra => region.Covers target ∧ region.CoversAll extra
  | .collect template inner result => region.Covers template ∧ region.Covers inner ∧ region.Covers result
  | .builtin action => ∀ fuel bindings, region.Confines bindings → region.CoversResult (action fuel bindings)
  | .predicate _ args => region.CoversAll args

theorem coversGoal_ofCall (name : String) {args : List Term} (covers : region.CoversAll args) :
    region.CoversGoal (Goal.ofCall name args) := by
  unfold Goal.ofCall
  split
  case h_13 =>
    split
    · rename_i action found
      exact fun fuel bindings confines => .of_kind confines (Builtin.kind_of_ofCall? found).2 covers fuel
    · exact covers
  all_goals simp_all [CoversGoal]

theorem coversGoal_of_ofTerm {goal : Goal} (covers : region.Covers term) (read : Goal.ofTerm term = .ok goal) :
    region.CoversGoal goal := by
  cases term with
  | var id => contradiction
  | int value => contradiction
  | atom name =>
    obtain rfl := Except.ok.inj read
    exact coversGoal_ofCall name coversAll_nil
  | compound name first rest =>
    obtain rfl := Except.ok.inj read
    exact coversGoal_ofCall name (covers_compound.mp covers)

theorem covers_of_withArgs {target goal : Term} {extra : List Term} (coversTarget : region.Covers target)
    (coversExtra : region.CoversAll extra) (made : Goal.withArgs target extra = .ok goal) : region.Covers goal := by
  unfold Goal.withArgs at made
  split at made
  · obtain rfl := Except.ok.inj made
    exact coversTarget
  · split at made
    · contradiction
    · contradiction
    · obtain rfl := Except.ok.inj made
      exact covers_build.mpr coversExtra
    · obtain rfl := Except.ok.inj made
      rw [covers_compound] at coversTarget ⊢
      intro term member
      rcases List.mem_append.mp (List.cons_append ▸ member) with member | member
      · exact coversTarget term member
      · exact coversExtra term member

/-! ## Loops -/

theorem inside_of_ofTerm {spec : LoopSpec} (covers : region.Covers specs) (read : LoopSpec.ofTerm specs = .ok spec) :
    ∀ id ∈ spec.occurrences, region.inside id :=
  fun id occurs => covers id (LoopSpec.mem_occurrences_of_ofTerm read occurs)

/-- The iterators of a loop that is reached belong to the region with the loop. -/
theorem Confines.covers_threaded (confines : region.Confines bindings) {specs' : Term}
    (coversSpecs : region.Covers specs) (coversBody : region.Covers body)
    (made : threaded bindings specs body = .ok specs') : region.Covers specs' := by
  unfold threaded at made
  cases read : LoopSpec.ofTerm (bindings.conjunction specs) with
  | error error => simp [read, Bind.bind, Except.bind] at made
  | ok spec =>
    rw [read] at made
    obtain rfl := Except.ok.inj made
    have own := inside_of_ofTerm (confines.covers_conjunction coversSpecs) read
    intro id occurs
    rw [LoopSpec.occurrences_toTerm] at occurs
    rcases LoopSpec.mem_occurrences_of_withParams occurs with shared | old
    · rcases VarSet.mem_extend.mp shared with declared | shared
      · exact own id (LoopSpec.mem_occurrences_of_declared declared)
      · rcases List.mem_append.mp (LoopSpec.mem_occurrences_of_shared shared) with old | inBody
        · exact own id old
        · exact coversBody id inBody
    · exact own id old

/-- The goal of a compiled loop with its parameters as declared belongs to the region with its iterators. -/
theorem covers_of_compileLoop {loop : CompiledLoop} {before after : Compilation} (room : region.limit ≤ before.next)
    (covers : region.Covers specs) (compiled : Compiler.compileLoop specs body none before = .ok loop after) :
    region.Covers loop.goal := by
  intro id occurs
  obtain ⟨spec, _, _, read, _⟩ := Compiler.exists_goal_of_compileLoop compiled
  have own := inside_of_ofTerm covers read
  rcases Compiler.mem_of_compileLoop read compiled occurs with looked | declared | taken
  · exact own id (LoopSpec.mem_occurrences_of_globalVars looked)
  · exact own id (LoopSpec.mem_occurrences_of_declared declared)
  · exact region.new id (Nat.le_trans room taken)

/-- So does the start of its plan. -/
theorem covers_of_planLoop {plan : LoopPlan} {next after : Nat} (room : region.limit ≤ next)
    (covers : region.Covers specs) (planned : planLoop specs body next = .ok plan after) :
    region.Covers (.conjunction plan.prelude) ∧ region.CoversAll plan.initial := by
  obtain ⟨spec, threads, read, threaded, rfl⟩ := exists_threads_of_planLoop planned
  have own := inside_of_ofTerm covers read
  have inside : ∀ id ∈ threads.entry, region.inside id := by
    intro id occurs
    by_cases old : id < next
    · rcases LoopSpec.mem_of_entry threaded occurs (.inl old) with looked | declared
      · exact own id (LoopSpec.mem_occurrences_of_globalVars looked)
      · exact own id (LoopSpec.mem_occurrences_of_declared declared)
    · exact region.new id (by omega)
  simp only [Threads.entry, List.flatMap_append, List.mem_append] at inside
  refine ⟨fun id occurs => inside id (.inl ?_), fun term member id occurs => inside id (.inr ?_)⟩
  · rw [← Term.occurrences_conjunction]
    exact occurs
  · exact List.mem_flatMap.mpr ⟨term, member, occurs⟩

end Region

end HornLoops
