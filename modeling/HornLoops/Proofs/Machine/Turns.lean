import HornLoops.Proofs.Machine.Constructs

/-!
# Iterations side by side

A call of a procedure and an iteration from a plan take turns of the same form: unless the arguments end the loop, a
copy of the iteration is made, and if the arguments fit the copy, its goals are solved. Turns that test their arguments
alike and proceed alike do the same. So do calls of procedures for the same loop, and iterations from plans of the same
loop.
-/

namespace HornLoops

open Bindings Machine

/-! ## Turns -/

section

variable {comparison : Comparison} {world : World} (coupled : Coupled comparison world) {σ : Type}
  {related : σ → σ → Prop} {acc acc' : σ}

include coupled in
/-- Turns do the same if they end alike, are copied alike, and proceed alike where the arguments fit the copies. -/
theorem Coupled.matches_turn {γ δ : Type} {ends ends' : Run Bool} {copy : Run γ} {copy' : Run δ}
    {fits : γ → Run Bool} {fits' : δ → Run Bool} {proceed : γ → Nat → Continuation σ}
    {proceed' : δ → Nat → Continuation σ} {k k' : Continuation σ} (copied : γ → δ → World → Prop)
    (ending : Advances comparison world (fun ended ended' _ => ended' = ended) (ends world.left) (ends' world.right))
    (copying : ∀ later, world.Later later → Coupled comparison later →
      Advances comparison later copied (copy later.left) (copy' later.right))
    (fitting : ∀ value value' between later, copied value value' between → between.Later later → world.Later later →
      Coupled comparison later →
        Advances comparison later
          (fun fit fit' last => fit' = fit ∧ (fit = true → ∀ inner acc acc', related acc acc' →
            Matches comparison last related (proceed value inner acc last.left)
              (proceed' value' (inner + comparison.lead) acc' last.right)))
          (fits value later.left) (fits' value' later.right))
    (depth : Nat) (continues : Continues comparison world related k k') (values : related acc acc') :
    Matches comparison world related (turn ends copy fits proceed depth k acc world.left)
      (turn ends' copy' fits' proceed' depth k' acc' world.right) := by
  unfold turn
  refine coupled.matches_checkDepth depth ?_
  rw [Run.mark_bind, Run.mark_bind]
  refine ending.bind ?_
  rintro _ ended _ _ ⟨later, le, coupled₁, rfl, rfl, rfl⟩
  cases ended with
  | true =>
    refine coupled.concurs_undo le (continues later acc acc' le coupled₁ values) ?_
    intro outcome outcome' left right signal values returned
    exact .ok ⟨signal, values, returned⟩
  | false =>
    refine (copying later le coupled₁).bind ?_
    rintro value value' _ _ ⟨between, le₁, coupled₂, rfl, rfl, copies⟩
    refine coupled₂.concurs_newBarrier fun next inner le₂ coupled₃ _ _ => ?_
    have le₃ := (le.trans le₁).trans le₂
    refine (fitting value value' between next copies le₂ le₃ coupled₃).bind ?_
    rintro _ fit _ _ ⟨last, le₄, coupled₄, rfl, rfl, rfl, proceeds⟩
    have leave (outcome outcome' : Outcome σ) (left right : Machine)
        (signal : outcome'.1 = outcome.1.ahead comparison.lead) (values : related outcome.2 outcome'.2)
        (returned : Returned comparison world left right) :
        Matches comparison world related ((pure (outcome.1.beyond inner, outcome.2) : Run (Outcome σ)) left)
          ((pure (outcome'.1.beyond (inner + comparison.lead), outcome'.2) : Run (Outcome σ)) right) :=
      .ok ⟨by rw [signal, Signal.beyond_ahead], values, returned⟩
    cases fit with
    | true => exact coupled.concurs_undo (le₃.trans le₄) (proceeds rfl inner acc acc' values) leave
    | false => exact coupled.concurs_undo (le₃.trans le₄) (coupled₄.matches_pure rfl values) leave

/-! ## Procedures -/

/-- The clauses of a procedure have their variables numbered from zero on. -/
def Procedure.Below (procedure : Procedure) : Prop :=
  ∀ clause ∈ procedure.clauses, clause.head.Below clause.width ∧ clause.body.Below clause.width

theorem ProcedureEntry.Sound.below {entries : List ProcedureEntry} {entry : ProcedureEntry}
    (sound : entry.Sound entries) : entry.procedure.Below := by
  obtain ⟨spec, body, body', threads, next, between, start, after, _, _, _, _, _, made⟩ := sound
  intro clause member
  rw [made] at member
  rcases List.mem_cons.mp member with rfl | member
  · exact Clause.below_ofTerms _ _
  · rw [List.mem_singleton.mp member]
    exact Clause.below_ofTerms _ _

variable {fuel fuel' : Nat} (fuels : comparison.Fuels fuel fuel') {solver solver' : Solver}
  (solves : Simulates comparison solver solver') {k k' : Continuation σ}
  (continues : Continues comparison world related k k') (values : related acc acc')

include coupled fuels solves continues values in
/-- Procedures that are twins do the same with arguments that correspond to each other. -/
theorem Coupled.matches_callProcedure {procedure procedure' : Procedure}
    (twins : Twins Unreserved world.left.procedures.entries world.right.procedures.entries procedure procedure')
    (below : procedure.Below) {args args' : List Term} (images : List.Forall₂ (Images world.link) args args')
    (depth : Nat) :
    Matches comparison world related (callProcedure fuel solver procedure args depth k acc world.left)
      (callProcedure fuel' solver' procedure' args' depth k' acc' world.right) := by
  obtain ⟨mentionsTerminal, mentionsParams⟩ := mentions_append.mp twins.mentions
  have belowBase := below procedure.base (by simp [Procedure.clauses])
  have belowStep := below procedure.recursive (by simp [Procedure.clauses])
  rw [callProcedure_eq_turn, callProcedure_eq_turn]
  refine coupled.matches_turn (fun copy copy' later => List.Forall₂ (Images later.link) copy.1 copy'.1 ∧
    GoalsAlike later copy.2 copy'.2) ?_ ?_ ?_ depth continues values
  · rw [Run.copyClause_bind, Run.copyClause_bind]
    simp only [Clause.instantiate]
    rw [← twins.terminal, ← twins.breadth]
    have coupled' := coupled.coupled_taken procedure.base.width
    have le := coupled.later_taken procedure.base.width
    exact (coupled'.advances_unifyAll fuels (coupled.images_args_taken mentionsTerminal belowBase.1.args)
      (le.images images)).of_later le
  · intro later le coupled₁
    have copy : Run.copyClause procedure.recursive later.left =
        .ok (procedure.recursive.instantiate later.left.bindings.size)
          (coupled₁.taken procedure.recursive.width).left := rfl
    have copy' : Run.copyClause procedure'.recursive later.right =
        .ok (procedure'.recursive.instantiate later.right.bindings.size)
          (coupled₁.taken procedure.recursive.width).right := by
      rw [twins.width]
      rfl
    rw [copy, copy']
    refine .ok ⟨_, coupled₁.later_taken _, coupled₁.coupled_taken _, rfl, rfl, ?_, ?_⟩
    · simp only [Clause.instantiate]
      rw [← twins.params]
      exact coupled₁.images_args_taken mentionsParams belowStep.1.args
    · apply coupled₁.goalsAlike_taken belowStep.2
      exact twins.body.imp (fun _ _ => id) fun _ _ same => same.mono le.store.subset le.store'.subset
  · rintro copy copy' between later ⟨params, body⟩ le le' coupled₁
    refine (coupled₁.advances_unifyAll fuels (le.images params) (le'.images images)).imp ?_
    rintro _ unified _ _ ⟨last, le₁, coupled₂, rfl, rfl, rfl⟩
    refine ⟨last, le₁, coupled₂, rfl, rfl, rfl, fun _ inner acc acc' values => ?_⟩
    exact solves coupled₂ ((le.trans le₁).goalsAlike body) (depth + 1) inner (continues.mono (le'.trans le₁)) values

/-! ## Plans -/

/-- Plans with the same iterations, which mention unreserved names only and have their variables numbered from zero
on. -/
structure LoopPlan.Alike (plan plan' : LoopPlan) : Prop where
  /-- The loops end in the same way. -/
  terminal : plan'.terminal = plan.terminal
  /-- The iterations are the same. -/
  step : plan'.step = plan.step
  /-- Their arguments mention unreserved names. -/
  mentions : Mentions Unreserved (plan.terminal.terms ++ plan.step.head ++ plan.step.call)
  /-- So do their goals. -/
  named : plan.step.body.Named Unreserved
  /-- The variables of the ending are numbered from zero on. -/
  belowTerminal : ∀ term ∈ plan.terminal.terms, term.Below plan.terminal.width
  /-- So are those of an iteration. -/
  belowStep : ∀ term ∈ plan.step.head ++ plan.step.body :: plan.step.call, term.Below plan.step.width

variable {plan plan' : LoopPlan} (alike : plan.Alike plan')

include solves continues alike in
/-- Iterations from plans that are alike agree, by induction over their number. -/
theorem LoopPlan.Alike.matches_iterate {rounds rounds' : Nat} (fuels : comparison.Fuels rounds rounds') :
    ∀ later, world.Later later → Coupled comparison later →
      ∀ {args args' : List Term}, List.Forall₂ (Images later.link) args args' →
        ∀ (depth : Nat) {acc acc' : σ}, related acc acc' →
          Matches comparison later related (iterate solver plan k rounds args depth acc later.left)
            (iterate solver' plan' k' rounds' args' depth acc' later.right) := by
  have mentions := alike.mentions
  rw [mentions_append, mentions_append] at mentions
  obtain ⟨⟨mentionsTerminal, mentionsHead⟩, mentionsCall⟩ := mentions
  refine Fuels.induct ?_ ?_ ?_ fuels
  · intro excused _ later _ _ args args' _ depth acc acc' _
    exact .first excused
  · intro excused _ later _ _ args args' _ depth acc acc' _
    exact .second excused
  · intro rounds rounds' fuels ih later le coupled args args' images depth acc acc' values
    rw [iterate_succ_eq_turn, iterate_succ_eq_turn, alike.terminal, alike.step]
    refine coupled.matches_turn (fun copy copy' later => List.Forall₂ (Images later.link) copy.1 copy'.1 ∧
      Images later.link copy.2.1 copy'.2.1 ∧ List.Forall₂ (Images later.link) copy.2.2 copy'.2.2) ?_ ?_ ?_ depth
      (continues.mono le) values
    · have coupled' := coupled.coupled_taken plan.terminal.width
      have le' := coupled.later_taken plan.terminal.width
      exact Advances.of_later le' (coupled'.advances_unifyAll fuels
        (coupled.images_args_taken mentionsTerminal alike.belowTerminal) (le'.images images))
    · intro next _ coupled'
      refine .ok ⟨_, coupled'.later_taken plan.step.width, coupled'.coupled_taken _, rfl, rfl, ?_, ?_, ?_⟩
      · exact coupled'.images_args_taken mentionsHead fun term member => alike.belowStep term (by simp [member])
      · exact coupled'.images_taken alike.named (alike.belowStep _ (by simp))
      · exact coupled'.images_args_taken mentionsCall fun term member => alike.belowStep term (by simp [member])
    · rintro copy copy' between next ⟨params, body, call⟩ le₁ le₂ coupled₁
      refine (coupled₁.advances_unifyAll fuels (le₁.images params) (le₂.images images)).imp ?_
      rintro _ unified _ _ ⟨last, le₃, coupled₂, rfl, rfl, rfl⟩
      refine ⟨last, le₃, coupled₂, rfl, rfl, rfl, fun _ inner acc acc' values => ?_⟩
      refine solves coupled₂ (.plain (body.mono (le₁.trans le₃).link)) (depth + 1) inner ?_ values
      intro final acc acc' le₄ coupled₃ values
      exact ih final (((le.trans le₂).trans le₃).trans le₄) coupled₃ (((le₁.trans le₃).trans le₄).images call) (depth + 1)
        values

include coupled fuels solves continues values alike in
/-- Loops that are carried out from plans that are alike agree. -/
theorem LoopPlan.Alike.matches_interpret
    (prelude : GoalsAlike world (.conjunction plan.prelude) (.conjunction plan'.prelude))
    (initial : List.Forall₂ (Images world.link) plan.initial plan'.initial) (depth barrier : Nat) :
    Matches comparison world related (interpret fuel solver plan depth barrier k acc world.left)
      (interpret fuel' solver' plan' depth (barrier + comparison.lead) k' acc' world.right) := by
  refine solves coupled prelude depth barrier ?_ values
  intro later acc acc' le coupled' values
  exact alike.matches_iterate solves continues fuels later le coupled' (le.images initial) depth values

end

variable {terms : List Term} {term body : Term} {number : Nat → Nat} {threads : Threads}

/-! ## Plans of variants -/

variable (injective : InjectiveOn number (terms.flatMap Term.occurrences))
include injective

theorem Term.rename_idxOf_varsAll (member : term ∈ terms) :
    (term.rename number).rename (Term.varsAll (terms.map (Term.rename number))).idxOf =
      term.rename (Term.varsAll terms).idxOf := by
  rw [Term.varsAll_rename (by rwa [Term.occurrencesAll_eq_flatMap])]
  refine Term.rename_idxOf_map ?_ fun id occurs => Term.mem_varsAll.mpr ⟨term, member, occurs⟩
  refine injective.mono fun id inside => ?_
  obtain ⟨other, member, occurs⟩ := Term.mem_varsAll.mp inside
  exact List.mem_flatMap.mpr ⟨other, member, occurs⟩

theorem Term.length_varsAll_rename :
    (Term.varsAll (terms.map (Term.rename number))).length = (Term.varsAll terms).length := by
  rw [Term.varsAll_rename (by rwa [Term.occurrencesAll_eq_flatMap]), List.length_map]

theorem Template.ofTerms_rename : ofTerms (terms.map (Term.rename number)) = ofTerms terms := by
  simp only [ofTerms, Term.length_varsAll_rename injective, List.map_map, Template.mk.injEq, and_true]
  exact List.map_congr_left fun term member => Term.rename_idxOf_varsAll injective member

omit injective

theorem LoopStep.ofTerms_rename {head call : List Term}
    (injective : InjectiveOn number ((head ++ body :: call).flatMap Term.occurrences)) :
    ofTerms (head.map (Term.rename number)) (body.rename number) (call.map (Term.rename number)) =
      ofTerms head body call := by
  have whole : head.map (Term.rename number) ++ body.rename number :: call.map (Term.rename number) =
      (head ++ body :: call).map (Term.rename number) := by simp
  have each {term : Term} (member : term ∈ head ++ body :: call) :=
    Term.rename_idxOf_varsAll injective member
  simp only [ofTerms, whole, Term.length_varsAll_rename injective, List.map_map, LoopStep.mk.injEq, and_true]
  refine ⟨?_, each (by simp), ?_⟩
  · exact List.map_congr_left fun term member => each (by simp [member])
  · exact List.map_congr_left fun term member => each (by simp [member])

/-- The goals of the steps and of the body of an iteration are among the variables of threads and body. -/
theorem Threads.occurrences_step_subset {threads : Threads} {body : Term} :
    (threads.head ++ .conjunction (threads.steps ++ [body]) :: threads.call).flatMap Term.occurrences ⊆
      threads.occurrences ++ body.occurrences := by
  intro id member
  simp only [List.flatMap_append, List.flatMap_cons, List.flatMap_nil, List.append_nil, Term.occurrences_conjunction,
    List.mem_append] at member
  simp only [Threads.occurrences, Term.occurrencesAll_eq_flatMap, List.flatMap_append, List.mem_append]
  tauto

theorem Threads.terminal_subset {threads : Threads} {body : Term} :
    threads.terminal.flatMap Term.occurrences ⊆ threads.occurrences ++ body.occurrences := by
  intro id member
  simp only [Threads.occurrences, Term.occurrencesAll_eq_flatMap, List.flatMap_append, List.mem_append]
  tauto

/-- Plans of variants have the same iterations. -/
theorem Threads.plan_rename (injective : InjectiveOn number (threads.occurrences ++ body.occurrences)) :
    ((threads.rename number).plan (body.rename number)).terminal = (threads.plan body).terminal ∧
      ((threads.rename number).plan (body.rename number)).step = (threads.plan body).step := by
  refine ⟨Template.ofTerms_rename (injective.mono fun _ => @terminal_subset threads body _), ?_⟩
  have goals : Term.conjunction ((threads.rename number).steps ++ [body.rename number]) =
      (Term.conjunction (threads.steps ++ [body])).rename number := by
    rw [Term.rename_conjunction, List.map_append]
    rfl
  rw [plan, plan]
  simp only [goals]
  exact LoopStep.ofTerms_rename (injective.mono fun _ => @occurrences_step_subset threads body _)

/-- Plans of variants are alike. -/
theorem LoopPlan.alike_rename (mentions : threads.Mentions Unreserved) (named : body.Named Unreserved)
    (injective : InjectiveOn number (threads.occurrences ++ body.occurrences)) :
    (threads.plan body).Alike ((threads.rename number).plan (body.rename number)) := by
  obtain ⟨terminal, step⟩ := Threads.plan_rename injective
  have renamed {number : Nat → Nat} {terms : List Term} (own : Mentions Unreserved terms) :
      Mentions Unreserved (terms.map (Term.rename number)) := by
    intro term member
    obtain ⟨original, inside, rfl⟩ := List.mem_map.mp member
    exact Term.named_rename.mpr (own original inside)
  refine ⟨terminal, step, ?_, ?_, ?_, ?_⟩
  · rw [mentions_append, mentions_append]
    exact ⟨⟨renamed mentions.terminal, renamed mentions.head⟩, renamed mentions.call⟩
  · refine Term.named_rename.mpr (Term.named_conjunction ordinary_unreserved ?_)
    exact mentions_append.mpr ⟨mentions.steps, mentions_cons.mpr ⟨named, mentions_nil⟩⟩
  · intro term member
    obtain ⟨original, inside, rfl⟩ := List.mem_map.mp member
    exact Term.below_rename_idxOf inside
  · intro term member
    have whole : term ∈ (threads.head ++ .conjunction (threads.steps ++ [body]) :: threads.call).map
        (Term.rename (Term.varsAll (threads.head ++ .conjunction (threads.steps ++ [body]) :: threads.call)).idxOf) := by
      rw [List.map_append, List.map_cons]
      exact member
    obtain ⟨original, inside, rfl⟩ := List.mem_map.mp whole
    exact Term.below_rename_idxOf inside

end HornLoops
