import HornLoops.Proofs.Machine.Requests

/-!
# Constructs side by side

Control constructs, calls of predicates of the program and the collection of solutions do the same on machines in
corresponding states, if the goals inside do and if the continuations that solutions are handed to agree. This is shown
for one construct after the other.
-/

namespace HornLoops

open Bindings Machine

/-! ## Constructs -/

section

variable {comparison : Comparison} {world : World} (coupled : Coupled comparison world) {σ : Type}
  {related : σ → σ → Prop} {acc acc' : σ}

include coupled in
/-- A search ends. -/
theorem Coupled.matches_pure {signal signal' : Signal} (same : signal' = signal.ahead comparison.lead)
    (values : related acc acc') :
    Matches comparison world related (.ok (signal, acc) world.left) (.ok (signal', acc') world.right) :=
  .ok ⟨same, values, .refl coupled⟩

variable {result result' : EStateM.Result Stop Machine (Outcome σ)} {terms : List Term} {goal goal' term : Term}
  {allowed : String → Prop} {count : Nat}

include coupled in
/-- A search goes on after another one. -/
theorem Coupled.matches_returned {left right : Machine} (returned : Returned comparison world left right)
    (rest : Matches comparison ⟨world.link, left, right⟩ related result result') :
    Matches comparison world related result result' :=
  coupled.matches_later rest returned.bindings returned.bindings' returned.store returned.store'

/-- A search in the world after variables were taken. -/
theorem Coupled.matches_taken (count : Nat) (rest : Matches comparison (coupled.taken count) related result result') :
    Matches comparison world related result result' :=
  coupled.matches_later rest ⟨_, rfl⟩ ⟨_, rfl⟩ (.refl _) (.refl _)

variable {fuel fuel' : Nat} (fuels : comparison.Fuels fuel fuel') {solver solver' : Solver}
  (solves : Simulates comparison solver solver') {k k' : Continuation σ}
  (continues : Continues comparison world related k k') (values : related acc acc')

include coupled fuels continues values in
theorem Coupled.matches_equate {lefts lefts' rights rights' : List Term}
    (images : List.Forall₂ (Images world.link) lefts lefts') (images' : List.Forall₂ (Images world.link) rights rights') :
    Matches comparison world related (equate fuel lefts rights k acc world.left)
      (equate fuel' lefts' rights' k' acc' world.right) := by
  unfold equate
  rw [Run.mark_bind, Run.mark_bind]
  refine coupled.concurs_unifyAll fuels images images' ?_ (coupled.matches_pure rfl values)
  intro later le coupled'
  refine coupled.concurs_undo le (continues later acc acc' le coupled' values) ?_
  intro outcome outcome' left right signal values returned
  exact .ok ⟨signal, values, returned⟩

include fuels continues values in
/-- What is built in asks for effects that correspond to each other. -/
theorem Coupled.matches_perform {result result' : Except Stop Effect} : EffectsAlike coupled result result' →
    Matches comparison world related
      ((match result with
        | .ok effect => perform fuel effect k acc
        | .error stop => throw stop : Run (Outcome σ)) world.left)
      ((match result' with
        | .ok effect => perform fuel' effect k' acc'
        | .error stop => throw stop : Run (Outcome σ)) world.right) := by
  intro alike
  cases alike with
  | refuse => exact coupled.matches_pure rfl values
  | accept => exact continues world acc acc' (.refl _) coupled values
  | @equate taken lefts lefts' rights rights' images images' =>
    apply coupled.matches_taken taken
    exact (coupled.coupled_taken taken).matches_equate fuels (continues.mono (coupled.later_taken taken)) values images
      images'
  | write text text' =>
    have aligned : Aligned comparison { world.left with output := world.left.output ++ text }
        { world.right with output := world.right.output ++ text' } := { coupled.aligned with }
    exact coupled.matches_of_same aligned rfl rfl rfl rfl fun coupled' later =>
      continues _ acc acc' later coupled' values
  | stop alike => exact .stop alike coupled.aligned
  | first excused => exact .first excused
  | second excused => exact .second excused

include coupled solves continues values in
theorem Coupled.matches_solveEither {left left' right right' : Term} (first : GoalsAlike world left left')
    (second : GoalsAlike world right right') (depth barrier : Nat) :
    Matches comparison world related (solveEither solver left right depth barrier k acc world.left)
      (solveEither solver' left' right' depth (barrier + comparison.lead) k' acc' world.right) := by
  unfold solveEither
  refine (solves coupled first depth barrier continues values).bind ?_
  rintro ⟨signal, acc⟩ ⟨signal', acc'⟩ left right ⟨rfl, values, returned⟩
  cases signal with
  | more =>
    exact coupled.matches_returned returned (solves returned.coupled (returned.later.goalsAlike second) depth barrier
      (continues.mono returned.later) values)
  | halt => exact .ok ⟨rfl, values, returned⟩
  | cut target => exact .ok ⟨rfl, values, returned⟩

include coupled solves continues values in
theorem Coupled.matches_solveConfined (alike : GoalsAlike world goal goal') (depth : Nat) :
    Matches comparison world related (solveConfined solver goal depth k acc world.left)
      (solveConfined solver' goal' depth k' acc' world.right) := by
  unfold solveConfined
  refine coupled.matches_newBarrier fun later inner le coupled' => ?_
  refine (solves coupled' (le.goalsAlike alike) depth inner (continues.mono le) values).bind ?_
  rintro ⟨signal, acc⟩ ⟨signal', acc'⟩ left right ⟨rfl, values, returned⟩
  exact .ok ⟨Signal.beyond_ahead _ _ _, values, returned⟩

include coupled solves continues values in
theorem Coupled.matches_solveUnless (alike : GoalsAlike world goal goal') (depth : Nat) :
    Matches comparison world related (solveUnless solver goal depth k acc world.left)
      (solveUnless solver' goal' depth k' acc' world.right) := by
  unfold solveUnless
  refine coupled.matches_newBarrier fun later inside le coupled' => ?_
  have stops : Continues comparison later (fun _ _ : Unit => True) (fun _ => return (.cut inside, ()))
      (fun _ => return (.cut (inside + comparison.lead), ())) :=
    fun _ _ _ _ coupled values => coupled.matches_pure rfl values
  refine (solves coupled' (le.goalsAlike alike) depth inside stops trivial).bind ?_
  rintro ⟨signal, _⟩ ⟨signal', _⟩ left right ⟨rfl, _, returned⟩
  cases signal with
  | more =>
    exact coupled'.matches_returned returned
      (continues _ acc acc' (le.trans returned.later) returned.coupled values)
  | halt => exact .ok ⟨rfl, values, returned⟩
  | cut target => exact .ok ⟨Signal.beyond_ahead _ _ (.cut target), values, returned⟩

include coupled solves continues values in
theorem Coupled.matches_solveIf {condition condition' consequence consequence' : Term}
    (first : GoalsAlike world condition condition')
    (second : GoalsAlike world consequence consequence') {alternative alternative' : Option Term}
    (third : Option.Rel (GoalsAlike world) alternative alternative') (depth barrier : Nat) :
    Matches comparison world related (solveIf solver condition consequence alternative depth barrier k acc world.left)
      (solveIf solver' condition' consequence' alternative' depth (barrier + comparison.lead) k' acc' world.right) := by
  unfold solveIf
  refine coupled.matches_newBarrier fun later inner le coupled' => ?_
  refine EndsAlike.bind
    (show Matches comparison later (fun found found' : Bool × σ => found.1 = found'.1 ∧ related found.2 found'.2) _ _
      from solves coupled' (le.goalsAlike first) depth inner ?_ ⟨rfl, values⟩) ?_
  · intro last found found' le' coupled'' values
    refine EndsAlike.bind (solves coupled'' ((le.trans le').goalsAlike second) depth barrier
      (continues.mono (le.trans le')) values.2) ?_
    rintro ⟨signal, acc⟩ ⟨signal', acc'⟩ left right ⟨rfl, values, returned⟩
    exact .ok ⟨Signal.orCut_ahead _ _ _, ⟨rfl, values⟩, returned⟩
  rintro ⟨signal, found, acc⟩ ⟨signal', found', acc'⟩ left right ⟨rfl, ⟨same, values⟩, returned⟩
  obtain rfl : found = found' := same
  cases signal with
  | more =>
    cases found with
    | true => exact .ok ⟨rfl, values, returned⟩
    | false =>
      cases third with
      | none => exact .ok ⟨rfl, values, returned⟩
      | some alike =>
        have le' := le.trans returned.later
        exact coupled'.matches_returned returned
          (solves returned.coupled (le'.goalsAlike alike) depth barrier (continues.mono le') values)
  | halt => exact .ok ⟨rfl, values, returned⟩
  | cut target => exact .ok ⟨Signal.beyond_ahead _ _ (.cut target), values, returned⟩

/-! ## Collecting solutions -/

/-- A normal form that mentions only allowed names. -/
structure NormalForm.Fit (allowed : String → Prop) (form : NormalForm) : Prop where
  /-- Its names are allowed. -/
  named : form.term.Named allowed
  /-- Its variables are numbered from zero on. -/
  below : form.term.Below form.width

theorem Term.fit_normalize (named : term.Named allowed) : term.normalize.Fit allowed :=
  ⟨Term.named_rename.mpr named,
    Term.forall_mem_rename fun _ occurs => List.idxOf_lt_length_of_mem (Term.mem_vars.mpr occurs)⟩

include coupled in
/-- Copies of normal forms correspond to each other. -/
theorem Coupled.matches_copyAll {forms : List NormalForm} (fit : ∀ form ∈ forms, form.Fit Unreserved)
    {next next' : List Term → Run (Outcome σ)}
    (rest : ∀ later items items', world.Later later → Coupled comparison later →
      List.Forall₂ (Images later.link) items items' →
        Matches comparison later related (next items later.left) (next' items' later.right)) :
    Matches comparison world related ((copyAll forms >>= next) world.left)
      ((copyAll forms >>= next') world.right) := by
  induction forms generalizing world next next' with
  | nil => exact rest world [] [] (.refl _) coupled .nil
  | cons form forms ih =>
    rw [List.forall_mem_cons] at fit
    simp only [copyAll, bind_assoc, pure_bind]
    rw [Run.take_bind, Run.take_bind]
    apply coupled.matches_taken form.width
    refine ih (coupled.coupled_taken form.width) fit.2 fun later items items' le coupled' images => ?_
    have first := coupled.images_taken fit.1.named fit.1.below
    exact rest later _ _ ((coupled.later_taken form.width).trans le) coupled' (.cons (first.mono le.link) images)

include coupled fuels solves continues values in
theorem Coupled.matches_solveCollect {template template' result result' : Term}
    (images : Images world.link template template') (alike : GoalsAlike world goal goal')
    (images' : Images world.link result result') (depth : Nat) :
    Matches comparison world related (solveCollect fuel solver template goal result depth k acc world.left)
      (solveCollect fuel' solver' template' goal' result' depth k' acc' world.right) := by
  unfold solveCollect
  refine coupled.matches_newBarrier fun later inner le coupled' => ?_
  have notes : Continues comparison later
      (fun found found' : List NormalForm => found = found' ∧ ∀ form ∈ found, form.Fit Unreserved)
      (fun found => do return (.more, (← Run.resolve template).normalize :: found))
      (fun found => do return (.more, (← Run.resolve template').normalize :: found)) := by
    rintro last found _ le' coupled'' ⟨rfl, fit⟩
    obtain ⟨covers, rfl⟩ := images.mono (le.trans le').link
    beta_reduce
    rw [Run.resolve_bind, Run.resolve_bind, coupled''.mirrors.ends covers]
    by_cases ended : last.left.bindings.ends template = true
    · rw [if_pos ended, if_pos ended]
      obtain ⟨whole, same⟩ := coupled''.mirrors.resolve covers ended
      rw [same, Link.image, Term.normalize_rename (Link.injectiveOn_occurrences whole)]
      refine coupled''.matches_pure rfl ⟨rfl, List.forall_mem_cons.mpr ⟨Term.fit_normalize ?_, fit⟩⟩
      exact coupled''.allowed ▸ whole.names
    · rw [if_neg ended, if_neg ended]
      exact .stop trivial coupled''.aligned
  refine EndsAlike.bind (solves coupled' (le.goalsAlike alike) depth inner notes ?_) ?_
  · exact ⟨rfl, by simp⟩
  rintro ⟨signal, found⟩ ⟨signal', found'⟩ left right ⟨_, ⟨same, fit⟩, returned⟩
  obtain rfl : found = found' := same
  apply coupled'.matches_returned returned
  have fit' : ∀ form ∈ found.reverse, form.Fit Unreserved := fun form member =>
    fit form (List.mem_reverse.mp member)
  refine returned.coupled.matches_copyAll fit' fun last items items' le' coupled'' copies => ?_
  have le'' := (le.trans returned.later).trans le'
  exact coupled''.matches_equate fuels (continues.mono le'') values (.cons (images'.mono le''.link) .nil)
    (.cons (coupled''.images_list copies) .nil)

/-! ## Calls -/

theorem Term.Named.args (named : term.Named allowed) : Mentions allowed term.args := by
  cases term with
  | compound name first rest =>
    obtain ⟨_, first', rest'⟩ := Term.named_compound.mp named
    exact List.forall_mem_cons.mpr ⟨first', rest'⟩
  | _ => simp [Term.args]

/-- The arguments of copies of a clause correspond to each other. -/
theorem Coupled.images_args_taken (mentions : Mentions Unreserved terms) (below : ∀ term ∈ terms, term.Below count) :
    List.Forall₂ (Images (coupled.taken count).link) (terms.map (Term.rename (world.left.bindings.size + ·)))
      (terms.map (Term.rename (world.right.bindings.size + ·))) := by
  rw [List.forall₂_map_left_iff, List.forall₂_map_right_iff, List.forall₂_same]
  exact fun term member => coupled.images_taken (mentions term member) (below term member)

include coupled fuels solves continues values in
theorem Coupled.matches_tryClauses {args args' : List Term} (images : List.Forall₂ (Images world.link) args args')
    (depth inner : Nat) {clauses clauses' : List Clause}
    (alike : List.Forall₂ (Clause.Alike comparison.start.entries comparison.start'.entries) clauses clauses') :
    Matches comparison world related (tryClauses fuel solver args depth inner k clauses acc world.left)
      (tryClauses fuel' solver' args' depth (inner + comparison.lead) k' clauses' acc' world.right) := by
  induction alike generalizing world acc acc' with
  | nil => exact coupled.matches_pure rfl values
  | @cons clause clause' clauses clauses' alike others ih =>
    rw [tryClauses, tryClauses, Run.mark_bind, Run.mark_bind, Run.copyClause_bind, Run.copyClause_bind]
    simp only [Clause.instantiate]
    rw [alike.head, alike.width]
    have coupled' := coupled.coupled_taken clause.width
    have le := coupled.later_taken clause.width
    have params : List.Forall₂ (Images (coupled.taken clause.width).link)
        (clause.head.args.map (Term.rename (world.left.bindings.size + ·)))
        (clause.head.args.map (Term.rename (world.right.bindings.size + ·))) :=
      coupled.images_args_taken alike.named.args alike.below.args
    have body : GoalsAlike (coupled.taken clause.width)
        (clause.body.rename (world.left.bindings.size + ·)) (clause'.body.rename (world.right.bindings.size + ·)) :=
      coupled.goalsAlike_taken alike.inside
        (alike.mono coupled.aligned.store.grown.subset coupled.aligned.store'.grown.subset).body
    refine coupled'.concurs_unifyAll fuels params (le.images images)
      (fun later le' coupled'' => coupled.concurs_undo (le.trans le') (solves coupled'' (le'.goalsAlike body)
        (depth + 1) inner (continues.mono (le.trans le')) values) ?_)
      (coupled.concurs_undo le (coupled'.matches_pure rfl values) ?_)
    -- Whether or not the head fits, the remaining clauses are tried from the same bindings.
    all_goals
      rintro ⟨signal, acc⟩ ⟨_, acc'⟩ left right rfl values returned
      cases signal with
      | more =>
        exact coupled.matches_returned returned
          (ih returned.coupled (continues.mono returned.later) values (returned.later.images images))
      | halt => exact .ok ⟨rfl, values, returned⟩
      | cut target => exact .ok ⟨Signal.beyond_ahead _ _ (.cut target), values, returned⟩

end

end HornLoops
