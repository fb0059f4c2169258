import HornLoops.Machine.Session
import HornLoops.Proofs.Bindings.Framing
import HornLoops.Proofs.Machine.Turns

/-!
# Runs leave the bindings as they were

A search keeps the bindings that it finds: when it ends, all variables of that time are as they were, whatever was tried
in between. The argument has one lemma per construct. A construct that binds variables takes a mark first; what is done
after the mark lets the store grow, and going back to the mark undoes any growth. If a search stops with an error, some
of these marks have not been gone back to, but the store has still only grown, so that the mark of the request around
the search is enough to restore everything.
-/

namespace HornLoops

open Bindings Machine

/-! ## What runs do to the bindings -/

/-- How a run ends for the bindings: with bindings of some kind, or stopped with a store that has grown out of an older
one. What is left behind by runs that stop counts only if `stops` holds. -/
def Leaves (stops : Prop) (old : Bindings) (holds : Bindings → Prop) {α : Type} :
    EStateM.Result Stop Machine α → Prop
  | .ok _ after => holds after.bindings ∧ after.bindings.Descending
  | .error _ after => stops → old.Grown after.bindings

namespace Leaves

variable {stops : Prop} {old : Bindings} {holds between : Bindings → Prop} {α β : Type}

theorem bind {first : Run α} {rest : α → Run β} {machine : Machine}
    (begins : Leaves stops old between (first machine))
    (goesOn : ∀ value after, between after.bindings → after.bindings.Descending →
      Leaves stops old holds (rest value after)) : Leaves stops old holds ((first >>= rest) machine) := by
  simp only [Bind.bind, EStateM.bind]
  cases result : first machine with
  | ok value after =>
    rw [result] at begins
    exact goesOn value after begins.1 begins.2
  | error stop after =>
    rw [result] at begins
    exact begins

theorem mono {older : Bindings} {holds' : Bindings → Prop} {result : EStateM.Result Stop Machine α}
    (leaves : Leaves stops old holds result) (grown : older.Grown old)
    (weaker : ∀ bindings, holds bindings → holds' bindings) : Leaves stops older holds' result := by
  cases result with
  | ok value after => exact ⟨weaker _ leaves.1, leaves.2⟩
  | error stop after => exact fun stopped => grown.trans (leaves stopped)

end Leaves

/-- A computation that keeps the bindings. -/
def Frames (stops : Prop) {α : Type} (action : Run α) : Prop :=
  ∀ machine : Machine, machine.bindings.Descending →
    Leaves stops machine.bindings (Kept machine.bindings) (action machine)

/-- A computation that lets the bindings grow. -/
def Grows (stops : Prop) {α : Type} (action : Run α) : Prop :=
  ∀ machine : Machine, machine.bindings.Descending →
    Leaves stops machine.bindings (Grown machine.bindings) (action machine)

/-- A computation that goes back to an older store once the store has grown out of it. -/
def GoesBack (stops : Prop) (old : Bindings) {α : Type} (action : Run α) : Prop :=
  ∀ machine : Machine, old.Grown machine.bindings → machine.bindings.Descending →
    Leaves stops old (Kept old) (action machine)

variable {stops : Prop} {α β : Type}

namespace Frames

theorem pure (value : α) : Frames stops (Pure.pure value : Run α) :=
  fun _ descending => ⟨.refl _, descending⟩

theorem throw (stop : Stop) : Frames stops (MonadExcept.throw stop : Run α) := fun _ _ _ => .refl _

theorem fail (error : RunError) : Frames stops (Run.fail error : Run α) := throw _

theorem bind {first : Run α} {rest : α → Run β} (begins : Frames stops first)
    (goesOn : ∀ value, Frames stops (rest value)) : Frames stops (first >>= rest) :=
  fun machine descending => (begins machine descending).bind fun value after kept descending' =>
    (goesOn value after descending').mono kept.grown fun _ kept' => kept.trans kept'

theorem get {rest : Machine → Run β} (goesOn : ∀ machine, Frames stops (rest machine)) :
    Frames stops (MonadState.get >>= rest) :=
  fun machine descending => goesOn machine machine descending

theorem grows {action : Run α} (frames : Frames stops action) : Grows stops action :=
  fun machine descending => (frames machine descending).mono (.refl _) fun _ => Kept.grown

/-- Reading the state keeps it. -/
theorem read (view : Machine → α) : Frames stops (do return view (← MonadState.get) : Run α) :=
  get fun _ => pure _

theorem walk (term : Term) : Frames stops (Run.walk term) := read fun machine => machine.bindings.walk term

theorem checkEnds (terms : List Term) : Frames stops (Run.checkEnds terms) := by
  refine get fun machine => ?_
  split
  · exact pure _
  · exact throw _

theorem resolve (term : Term) : Frames stops (Run.resolve term) :=
  (checkEnds [term]).bind fun _ => read fun machine => machine.bindings.resolve term

theorem checkDepth (depth : Nat) : Frames stops (Run.checkDepth depth) := by
  refine get fun machine => ?_
  match machine.settings.depthLimit with
  | some limit =>
    by_cases deep : limit ≤ depth
    · simp only [deep, if_true]
      exact fail _
    · simp only [deep, if_false]
      exact pure _
  | none => exact pure _

/-- Changes of other parts of the machine keep the bindings. -/
theorem modifyGet {change : Machine → α × Machine}
    (same : ∀ machine, (change machine).2.bindings = machine.bindings) :
    Frames stops (MonadStateOf.modifyGet change : Run α) := by
  intro machine descending
  have kept := same machine
  simp only [MonadStateOf.modifyGet, EStateM.modifyGet]
  exact ⟨kept ▸ .refl _, kept ▸ descending⟩

theorem newBarrier : Frames stops Run.newBarrier := modifyGet fun _ => rfl

theorem emit (text : String) : Frames stops (Run.emit text) := modifyGet fun _ => rfl

theorem report (names : List (String × Nat)) (diagnostics : List Diagnostic) :
    Frames stops (Run.report names diagnostics) := modifyGet fun _ => rfl

theorem take (count : Nat) : Frames stops (Run.take count) :=
  fun _ descending => ⟨.reserve _ _, descending.reserve _⟩

theorem copyClause (clause : Clause) : Frames stops (Run.copyClause clause) :=
  (take clause.width).bind fun _ => pure _

theorem copyTemplate (template : Template) : Frames stops (Run.copyTemplate template) :=
  (take template.width).bind fun _ => pure _

theorem copyStep (step : LoopStep) : Frames stops (Machine.copyStep step) :=
  (take step.width).bind fun _ => pure _

theorem copyAll (forms : List NormalForm) : Frames stops (Machine.copyAll forms) := by
  induction forms with
  | nil => exact pure _
  | cons form forms ih => exact (take form.width).bind fun _ => ih.bind fun _ => pure _

theorem supplied {ε : Type} (wrap : ε → RunError) (action : Supplied ε α) :
    Frames stops (Run.supplied wrap action) := by
  intro machine descending
  rw [Run.supplied]
  cases action machine.bindings.size with
  | ok value next => exact ⟨.reserve _ _, descending.reserve _⟩
  | error error next => exact fun _ => .reserve _ _

theorem compiling (action : Compiler α) : Frames stops (Run.compiling action) := by
  intro machine descending
  rw [Run.compiling]
  cases action ⟨machine.bindings.size, machine.procedures⟩ with
  | ok value after => exact ⟨.reserve _ _, descending.reserve _⟩
  | error error after => exact fun _ => .reserve _ _

/-- What goes back to the store of a mark keeps the bindings. -/
theorem mark {rest : Mark → Run α}
    (back : ∀ old : Bindings, old.Descending → GoesBack stops old (rest old.mark)) :
    Frames stops (Run.mark >>= rest) :=
  fun machine descending => back machine.bindings descending machine (.refl _) descending

end Frames

theorem Grows.bind {first : Run α} {rest : α → Run β} (begins : Grows stops first)
    (goesOn : ∀ value, Grows stops (rest value)) : Grows stops (first >>= rest) :=
  fun machine descending => (begins machine descending).bind fun value after grown descending' =>
    (goesOn value after descending').mono grown fun _ grown' => grown.trans grown'

theorem Grows.unifyAll (fuel : Nat) (lefts rights : List Term) :
    Grows stops (Run.unifyAll fuel lefts rights) := by
  intro machine descending
  have filled := (Filled.unifyAll descending fuel lefts rights).1
  rw [Run.unifyAll]
  rcases result : machine.bindings.unifyAll fuel lefts rights with ⟨outcome, after⟩
  rw [result] at filled
  cases outcome with
  | some unified => exact ⟨filled.grown, filled.descending⟩
  | none => exact fun _ => filled.grown

namespace GoesBack

variable {old : Bindings}

theorem bind {first : Run α} {rest : α → Run β} (begins : Grows stops first)
    (goesOn : ∀ value, GoesBack stops old (rest value)) : GoesBack stops old (first >>= rest) :=
  fun machine grown descending =>
    ((begins machine descending).mono grown fun _ grown' => grown.trans grown').bind fun value => goesOn value

/-- Going back to the mark of a store gives that store. -/
theorem undoTo (descending : old.Descending) {rest : Run α} (frames : Frames stops rest) :
    GoesBack stops old (Run.undoTo old.mark >>= fun _ => rest) := by
  intro machine grown _
  rw [Run.undoTo_bind, grown.undoTo]
  exact frames { machine with bindings := old } descending

end GoesBack

/-! ## Searches -/

/-- A continuation that keeps the bindings. -/
def ContinuationFrames (stops : Prop) {σ : Type} (k : Continuation σ) : Prop := ∀ acc, Frames stops (k acc)

/-- A solver that keeps the bindings if its continuation does. -/
def SolverFrames (stops : Prop) (solver : Solver) : Prop :=
  ∀ {σ : Type} (goal : Term) (depth barrier : Nat) {k : Continuation σ}, ContinuationFrames stops k →
    ContinuationFrames stops (solver σ goal depth barrier k)

namespace Frames

variable {σ : Type} {k : Continuation σ} (continues : ContinuationFrames stops k) (fuel : Nat) {solver : Solver}
  (solves : SolverFrames stops solver)

include continues in
/-- Unifying keeps the bindings: it is undone after the continuation, and unless it succeeds nothing is to be undone. -/
theorem equate (lefts rights : List Term) : ContinuationFrames stops (equate fuel lefts rights k) := by
  intro acc machine descending
  obtain ⟨filled, back⟩ := Filled.unifyAll descending fuel lefts rights
  rw [Machine.equate, Run.mark_bind]
  match result : machine.bindings.unifyAll fuel lefts rights with
  | (some true, after) =>
    rw [result] at filled
    rw [Run.unifyAll_bind_some _ result]
    have rest : GoesBack stops machine.bindings (do
        let result ← k acc
        Run.undoTo machine.bindings.mark
        return result) :=
      .bind (continues acc).grows fun _ => .undoTo descending (pure _)
    exact rest { machine with bindings := after } filled.grown filled.descending
  | (some false, after) =>
    obtain rfl : after = machine.bindings := by simpa [result] using back
    rw [Run.unifyAll_bind_some _ result]
    exact pure _ machine descending
  | (none, after) =>
    rw [result] at filled
    simp only [Bind.bind, EStateM.bind, Run.unifyAll, result]
    exact fun _ => filled.grown

include continues in
theorem perform (effect : Effect) : ContinuationFrames stops (perform fuel effect k) := by
  intro acc
  cases effect with
  | refuse => exact pure _
  | accept => exact continues acc
  | equate taken lefts rights => exact (take taken).bind fun _ => equate continues fuel lefts rights acc
  | write text => exact (emit text).bind fun _ => continues acc

include continues solves in
theorem solveEither (left right : Term) (depth barrier : Nat) :
    ContinuationFrames stops (solveEither solver left right depth barrier k) := by
  intro acc
  refine (solves left depth barrier continues acc).bind fun result => ?_
  match result with
  | (.more, acc) => exact solves right depth barrier continues acc
  | (.halt, acc) => exact pure _
  | (.cut target, acc) => exact pure _

include continues solves in
theorem solveIf (condition consequence : Term) (alternative : Option Term) (depth barrier : Nat) :
    ContinuationFrames stops (solveIf solver condition consequence alternative depth barrier k) := by
  intro acc
  refine newBarrier.bind fun inner => bind (solves condition depth inner (fun found => ?_) (false, acc)) ?_
  · exact (solves consequence depth barrier continues found.2).bind fun _ => pure _
  · rintro ⟨signal, found, acc⟩
    match signal, found, alternative with
    | .more, false, some alternative => exact solves alternative depth barrier continues acc
    | .more, false, none => exact pure _
    | .more, true, _ => exact pure _
    | .halt, _, _ => exact pure _
    | .cut target, _, _ => exact pure _

include continues solves in
theorem solveUnless (inner : Term) (depth : Nat) : ContinuationFrames stops (solveUnless solver inner depth k) := by
  intro acc
  refine newBarrier.bind fun inside => (solves inner depth inside (fun _ => pure _) ()).bind fun result => ?_
  match result with
  | (.more, _) => exact continues acc
  | (.halt, _) => exact pure _
  | (.cut target, _) => exact pure _

include continues solves in
theorem solveConfined (goal : Term) (depth : Nat) : ContinuationFrames stops (solveConfined solver goal depth k) :=
  fun acc => newBarrier.bind fun inner => (solves goal depth inner continues acc).bind fun _ => pure _

include continues solves in
theorem solveCollect (template goal result : Term) (depth : Nat) :
    ContinuationFrames stops (solveCollect fuel solver template goal result depth k) :=
  fun acc => newBarrier.bind fun inner =>
    (solves goal depth inner (fun _ => (resolve template).bind fun _ => pure _) []).bind fun found =>
    (copyAll found.2.reverse).bind fun items => equate continues fuel [result] [.list items] acc

include continues solves in
theorem tryClauses (args : List Term) (depth inner : Nat) (clauses : List Clause) :
    ContinuationFrames stops (tryClauses fuel solver args depth inner k clauses) := by
  induction clauses with
  | nil => exact fun acc => pure _
  | cons clause clauses ih =>
    intro acc
    refine mark fun old descending => .bind (copyClause clause).grows fun copy =>
      .bind (.unifyAll fuel copy.1 args) fun unified => ?_
    cases unified with
    | true =>
      refine .bind (solves copy.2 (depth + 1) inner continues acc).grows fun result => .undoTo descending ?_
      obtain ⟨signal, acc⟩ := result
      cases signal with
      | more => exact ih acc
      | halt => exact pure _
      | cut target => exact pure _
    | false => exact .undoTo descending (ih acc)

include continues in
/-- A turn of a loop keeps the bindings, since it goes back to its mark in any case. -/
theorem turn {γ : Type} {ends : Run Bool} {copy : Run γ} {fits : γ → Run Bool}
    {proceed : γ → Nat → Continuation σ} (ending : Grows stops ends) (copying : Grows stops copy)
    (fitting : ∀ next, Grows stops (fits next))
    (proceeding : ∀ next inner, ContinuationFrames stops (proceed next inner))
    (depth : Nat) : ContinuationFrames stops (turn ends copy fits proceed depth k) := by
  intro acc
  refine (checkDepth depth).bind fun _ => mark fun old descending => .bind ending fun ended => ?_
  cases ended with
  | true => exact .bind (continues acc).grows fun _ => .undoTo descending (pure _)
  | false =>
    refine .bind copying fun next => .bind newBarrier.grows fun inner => .bind (fitting next) fun fit => ?_
    cases fit with
    | true => exact .bind (proceeding next inner acc).grows fun _ => .undoTo descending (pure _)
    | false => exact .bind (pure _).grows fun _ => .undoTo descending (pure _)

include continues solves in
theorem callProcedure (procedure : Procedure) (args : List Term) (depth : Nat) :
    ContinuationFrames stops (callProcedure fuel solver procedure args depth k) := by
  rw [callProcedure_eq_turn]
  exact turn continues ((copyClause _).grows.bind fun _ => .unifyAll fuel _ args) (copyClause _).grows
    (fun _ => .unifyAll fuel _ args) (fun copy inner => solves copy.2 (depth + 1) inner continues) depth

include continues solves in
theorem callPredicate (name : String) (args : List Term) (depth : Nat) :
    ContinuationFrames stops (callPredicate fuel solver name args depth k) := by
  intro acc
  refine get fun machine => ?_
  match machine.program.clausesFor name args.length with
  | [] =>
    match machine.procedures.named? name with
    | some procedure =>
      by_cases fits : procedure.arity = args.length
      · simp only [fits, if_true]
        exact callProcedure continues fuel solves procedure args depth acc
      · simp only [fits, if_false]
        exact fail _
    | none => exact fail _
  | clause :: clauses =>
    exact (checkDepth depth).bind fun _ => newBarrier.bind fun inner =>
      tryClauses continues fuel solves args depth inner (clause :: clauses) acc

include continues solves in
theorem iterate (plan : LoopPlan) (args : List Term) (depth : Nat) :
    ContinuationFrames stops (iterate solver plan k fuel args depth) := by
  induction fuel generalizing args depth with
  | zero => exact fun acc => throw _
  | succ fuel ih =>
    rw [iterate_succ_eq_turn]
    exact turn continues ((copyTemplate _).grows.bind fun _ => .unifyAll fuel _ args) (copyStep _).grows
      (fun _ => .unifyAll fuel _ args)
      (fun copy inner => solves copy.2.1 (depth + 1) inner (ih copy.2.2 (depth + 1))) depth

include continues solves in
theorem interpret (plan : LoopPlan) (depth barrier : Nat) :
    ContinuationFrames stops (interpret fuel solver plan depth barrier k) :=
  solves _ depth barrier (iterate continues fuel solves plan plan.initial depth)

include continues solves in
theorem solveLoop (specs body : Term) (depth barrier : Nat) :
    ContinuationFrames stops (solveLoop fuel solver specs body depth barrier k) := by
  intro acc
  refine get fun machine => ?_
  match threaded machine.bindings specs body with
  | .error error => exact fail _
  | .ok specs =>
    match machine.settings.mode with
    | .compiled =>
      exact (compiling _).bind fun compiled => (report [] compiled.diagnostics).bind fun _ =>
        solves compiled.goal depth barrier continues acc
    | .interpreted =>
      exact (supplied .loop (planLoop specs body)).bind fun plan =>
        interpret continues fuel solves plan depth barrier acc

include continues solves in
theorem achieve (goal : Goal) (depth barrier : Nat) :
    ContinuationFrames stops (achieve fuel solver goal depth barrier k) := by
  intro acc
  cases goal with
  | succeed => exact continues acc
  | fail => exact pure _
  | cut => exact (continues acc).bind fun _ => pure _
  | both left right => exact solves left depth barrier (solves right depth barrier continues) acc
  | either left right =>
    refine (walk left).bind fun left => ?_
    match left.binary? "->" with
    | some (condition, consequence) =>
      exact solveIf continues solves condition consequence (some right) depth barrier acc
    | none => exact solveEither continues solves left right depth barrier acc
  | ifThen condition consequence => exact solveIf continues solves condition consequence none depth barrier acc
  | «unless» inner => exact solveUnless continues solves inner depth acc
  | call target extra =>
    refine (walk target).bind fun target => ?_
    match Goal.withArgs target extra with
    | .ok goal => exact solveConfined continues solves goal depth acc
    | .error error => exact Frames.fail _
  | loop specs body => exact solveLoop continues fuel solves specs body depth barrier acc
  | collect template inner result => exact solveCollect continues fuel solves template inner result depth acc
  | builtin action =>
    refine get fun machine => ?_
    match action fuel machine.bindings with
    | .ok effect => exact perform continues fuel effect acc
    | .error stop => exact Frames.throw _
  | predicate name args => exact callPredicate continues fuel solves name args depth acc

end Frames

/-- Searches keep the bindings if their continuations do. -/
theorem frames_solve (fuel : Nat) : SolverFrames stops (Machine.solve fuel) := by
  induction fuel with
  | zero => exact fun _ _ _ _ _ _ => Frames.throw _
  | succ fuel ih =>
    intro σ goal depth barrier k continues acc
    refine (Frames.walk goal).bind fun goal => ?_
    match Goal.ofTerm goal with
    | .ok asked => exact Frames.achieve continues fuel ih asked depth barrier acc
    | .error error => exact Frames.fail _

/-! ## Requests -/

/-- A computation that leaves the bindings exactly as they were, whether it stops or not. -/
def Restores {α : Type} (action : Run α) : Prop :=
  ∀ machine : Machine, machine.bindings.Descending → (after (action machine)).bindings = machine.bindings

namespace Restores

theorem of_same {action : Run α} (same : ∀ machine, (after (action machine)).bindings = machine.bindings) :
    Restores action := fun machine _ => same machine

/-- Whatever keeps the bindings or lets them grow before it stops can be undone. -/
theorem restoring {action : Run α} (frames : Frames True action) : Restores (Run.restoring action) := by
  intro machine descending
  have leaves := frames machine descending
  rw [Run.restoring]
  cases result : action machine with
  | ok value later =>
    rw [result] at leaves
    exact leaves.1.grown.undoTo
  | error stop later =>
    rw [result] at leaves
    exact (leaves trivial).undoTo

theorem map {action : Run α} (restores : Restores action) (view : α → β) :
    Restores (do return view (← action)) := by
  intro machine descending
  have same := restores machine descending
  simp only [Bind.bind, EStateM.bind]
  cases result : action machine with
  | ok value later =>
    rw [result] at same
    exact same
  | error stop later =>
    rw [result] at same
    exact same

end Restores

namespace Frames

theorem prepareClause (clause : Term) : Frames stops (prepareClause clause) := by
  refine get fun machine => ?_
  split
  · exact compiling _
  · split
    · exact pure _
    · exact fail _

theorem prepareGoal (goal : Term) : Frames stops (prepareGoal goal) := by
  refine get fun machine => ?_
  split
  · exact compiling _
  · split
    · exact pure _
    · exact fail _

theorem runDirective (fuel : Nat) (goal : Term) : Frames stops (runDirective fuel goal) :=
  newBarrier.bind fun barrier => (frames_solve fuel goal 0 barrier (fun _ => pure _) ()).bind fun _ => pure _

theorem addClause (clause : Term) : Frames stops (addClause clause) := by
  refine get fun machine => ?_
  split
  · exact modifyGet fun _ => rfl
  · exact fail _

theorem consultClauses (fuel : Nat) (reads : List ReadTerm) : Frames stops (consultClauses fuel reads) := by
  induction reads with
  | nil => exact pure _
  | cons read reads ih =>
    refine (prepareClause read.term).bind fun treated => (report read.names treated.2).bind fun _ => ?_
    split
    · exact (runDirective fuel _).bind fun _ => ih
    · exact (addClause _).bind fun _ => ih.bind fun _ => pure _

theorem noteAnswer (names : List (String × Nat)) (limit : Option Nat) :
    ContinuationFrames stops (noteAnswer names limit) :=
  fun found => (checkEnds _).bind fun _ =>
    read fun machine =>
      let found := answerFor names machine.bindings :: found
      (if enough limit found then Signal.halt else .more, found)

theorem noteValues (terms : List Term) : ContinuationFrames stops (noteValues terms) :=
  fun _ => (checkEnds terms).bind fun _ => read fun machine => (Signal.halt, some (terms.map machine.bindings.resolve))

end Frames

theorem restores_consult (fuel : Nat) (text : String) : Restores (consult fuel text) :=
  .restoring ((Frames.supplied .reading (readProgram text)).bind fun reads => .consultClauses fuel reads)

theorem restores_answers (fuel : Nat) (text : String) (limit : Option Nat) : Restores (answers fuel text limit) :=
  .restoring ((Frames.supplied .reading (readTerm text)).bind fun read => (Frames.prepareGoal read.term).bind
    fun treated => (Frames.report read.names treated.2).bind fun _ => Frames.newBarrier.bind fun barrier =>
    (frames_solve fuel treated.1 0 barrier (Frames.noteAnswer _ limit) []).bind fun _ => .pure _)

theorem restores_queryLimit (fuel : Nat) (text : String) (limit : Nat) :
    Restores (queryLimit fuel text limit) := by
  rw [queryLimit]
  split
  · exact .of_same fun _ => rfl
  · exact restores_answers fuel text (some limit)

theorem restores_invoke (fuel handle : Nat) (args : List Term) : Restores (invoke fuel handle args) := by
  intro machine descending
  rw [invoke, Run.get_bind]
  match machine.procedures.get? handle with
  | none => rfl
  | some procedure =>
    by_cases fits : procedure.arity = args.length
    · simp only [fits, if_true]
      refine Restores.restoring ?_ machine descending
      exact (Frames.copyTemplate _).bind fun args =>
        (Frames.callProcedure (Frames.noteValues args) fuel (frames_solve fuel) procedure args 0 none).bind
          fun _ => .pure _
    · simp only [fits, if_false]
      rfl

/-- The machine never leaks bindings. First, a search that ends keeps the bindings if its continuation does: the
variables of the time before it have the same cells, the trail is the same and no variable was dropped. Second,
queries, consulting a text and calling a procedure leave the bindings exactly as they were, whether they stop or
not. -/
theorem bindings_kept {machine : Machine} (descending : machine.bindings.Descending) :
    (∀ {σ : Type} (fuel : Nat) (goal : Term) (depth barrier : Nat) (k : Continuation σ) (acc : σ),
      (∀ acc before outcome after, before.bindings.Descending → k acc before = .ok outcome after →
        before.bindings.Kept after.bindings ∧ after.bindings.Descending) →
      ∀ outcome after, solve fuel σ goal depth barrier k acc machine = .ok outcome after →
        machine.bindings.Kept after.bindings ∧ after.bindings.Descending) ∧
    ∀ (fuel : Nat) (text : String),
      (after (query fuel text machine)).bindings = machine.bindings ∧
      (after (queryOnce fuel text machine)).bindings = machine.bindings ∧
      (∀ limit, (after (queryLimit fuel text limit machine)).bindings = machine.bindings) ∧
      (after (consult fuel text machine)).bindings = machine.bindings ∧
      ∀ handle args, (after (invoke fuel handle args machine)).bindings = machine.bindings := by
  constructor
  · intro σ fuel goal depth barrier k acc kept outcome later ended
    have continues : ContinuationFrames False k := by
      intro acc before descending'
      cases result : k acc before with
      | ok outcome after => exact kept acc before outcome after descending' result
      | error stop after => exact False.elim
    have leaves := frames_solve fuel goal depth barrier continues acc machine descending
    rw [ended] at leaves
    exact leaves
  · intro fuel text
    exact ⟨restores_answers fuel text none machine descending,
      (restores_answers fuel text (some 1)).map List.head? machine descending,
      fun limit => restores_queryLimit fuel text limit machine descending,
      restores_consult fuel text machine descending,
      fun handle args => restores_invoke fuel handle args machine descending⟩

/-- Where the second variable is bound to the first, a search binds the first one to `a` and hands on the solution, and
afterwards the store is as it was; so it is after a query. -/
theorem bindings_kept_unifying :
    ∃ outcome later,
      solve 4 Unit (.binary "=" (.var 1) (.atom "a")) 0 0 (fun acc => return (.halt, acc)) ()
        { bindings := ⟨#[none, some (.var 0)], #[1]⟩ } = .ok outcome later ∧
      Kept ⟨#[none, some (.var 0)], #[1]⟩ later.bindings ∧
      (after (query 9 "X = f(Y), Y = 1" { bindings := ⟨#[none, some (.var 0)], #[1]⟩ })).bindings =
        ⟨#[none, some (.var 0)], #[1]⟩ := by
  let machine : Machine := { bindings := ⟨#[none, some (.var 0)], #[1]⟩ }
  have descending : machine.bindings.Descending := by
    intro id other bound
    match id with
    | 0 => simp [machine, lookup?] at bound
    | 1 => obtain rfl : 0 = other := by simpa [machine, lookup?] using bound
           decide
    | _ + 2 => simp [machine, lookup?] at bound
  obtain ⟨search, requests⟩ := bindings_kept descending
  have ended : solve 4 Unit (.binary "=" (.var 1) (.atom "a")) 0 0 (fun acc => return (.halt, acc)) ()
      { bindings := ⟨#[none, some (.var 0)], #[1]⟩ } =
        .ok (.halt, ()) { bindings := ⟨#[none, some (.var 0)], #[1]⟩ } := by rfl
  refine ⟨_, _, ended, (search 4 _ 0 0 _ () ?_ _ _ ended).1, (requests 9 _).1⟩
  rintro acc before outcome later before' ⟨⟩
  exact ⟨.refl _, before'⟩

end HornLoops
