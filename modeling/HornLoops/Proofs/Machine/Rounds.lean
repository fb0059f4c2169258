import HornLoops.Proofs.Machine.Following

/-!
# Loops, round by round

Whether a loop is carried out by calls of its procedure or from its plan, each round looks at the arguments first. They
end the loop, or they start an iteration whose goals lead to the arguments of the next round, or the loop fails. So a run
of a loop is followed with one description of the arguments per round, and in the same way for both.
-/

namespace HornLoops

open Machine Bindings

variable {σ : Type} {invariant : Machine → Prop} {bindings : Bindings} {limit depth : Nat}

/-! ## Turns -/

/-- The search of one turn of a loop. -/
abbrev turning (threads : Threads) (body : Term) (args : List Term) (depth : Nat)
    (proceed : Nat → Continuation σ → List Term → List Term → Nat → Continuation σ) : Search σ :=
  fun fuel _ k => iteration fuel threads body args depth k (proceed fuel k)

namespace Presents

variable {threads : Threads} {body : Term} {args : List Term}
  {proceed : Nat → Continuation σ → List Term → List Term → Nat → Continuation σ} {begun after : Bindings}
  (steady : Steady invariant) (admits : ∀ machine, invariant machine → machine.Admits depth)
include steady admits

/-- A turn with arguments that end the loop. -/
theorem turnEnds {enough : Nat}
    (ended : ∀ fuel ≥ enough, (endStore threads bindings).unifyAll fuel (threads.endCopy bindings.size) args =
      (some true, after)) (grown : (endStore threads bindings).Grown after) :
    Attains invariant (turning threads body args depth proceed) bindings after := by
  apply Attains.intro enough
  rintro fuel more barrier machine holds rfl final steady' k note take acc
  have taken := take { machine with bindings := after } acc (steady machine _ rfl rfl rfl holds) rfl
  have ends := taken.undoTo steady' ((Grown.reserve machine.bindings _).trans grown) id id fun _ => rfl
  rw [id_map] at ends
  rw [turning, iteration_ended (admits machine holds) (ended fuel more)]
  exact ends

variable {enough : Nat}
  (ongoing : ∀ fuel ≥ enough, (endStore threads bindings).unifyAll fuel (threads.endCopy bindings.size) args =
    (some false, endStore threads bindings))
include ongoing

/-- A turn with arguments that start an iteration. -/
theorem turnGoes {enough' : Nat}
    (begins : ∀ fuel ≥ enough', (stepStore threads body bindings).unifyAll fuel
      (threads.stepCopy body (endStore threads bindings).size).1 args = (some true, begun))
    (grown : (stepStore threads body bindings).Grown begun) {solutions : List (Bindings → Prop)}
    {fault : Option RunError}
    (presents : Presents invariant (fun fuel inner k => proceed fuel k
        (threads.stepCopy body (endStore threads bindings).size).2.1
        (threads.stepCopy body (endStore threads bindings).size).2.2 inner) begun solutions fault) :
    Presents invariant (turning threads body args depth proceed) bindings solutions fault := by
  obtain ⟨enough'', presents⟩ := presents
  refine ⟨max enough (max enough' enough''), fun fuel more barrier machine holds here k notes takes acc => ?_⟩
  subst here
  have ends := presents fuel (by omega) (machine.barriers + 1)
    { machine with bindings := begun, barriers := machine.barriers + 1 } (steady machine _ rfl rfl rfl holds) rfl k notes
    takes acc
  have before : machine.bindings.Grown begun :=
    (Grown.reserve machine.bindings _).trans ((Grown.reserve _ _).trans grown)
  have undone := ends.undoTo steady before (fun result => (result.1.beyond (machine.barriers + 1), result.2)) id
    fun _ => rfl
  rw [id_map] at undone
  rw [turning, iteration_ongoing (admits machine holds) (ongoing fuel (by omega)) (begins fuel (by omega))]
  exact undone

/-- A turn with arguments that neither end the loop nor start an iteration. -/
theorem turnFails {enough' : Nat}
    (clashes : ∀ fuel ≥ enough', (stepStore threads body bindings).unifyAll fuel
      (threads.stepCopy body (endStore threads bindings).size).1 args = (some false, stepStore threads body bindings)) :
    Presents invariant (turning threads body args depth proceed) bindings [] none := by
  refine ⟨max enough enough', fun fuel more barrier machine holds here k notes takes acc => ?_⟩
  obtain rfl := List.forall₂_nil_left_iff.mp takes
  subst here
  have before : machine.bindings.Grown (stepStore threads body machine.bindings) :=
    (Grown.reserve machine.bindings _).trans (Grown.reserve _ _)
  refine ⟨{ machine with barriers := machine.barriers + 1 }, ?_, ⟨machine.bindings.size, reserve_size.symm⟩,
    steady machine _ rfl rfl rfl holds⟩
  rw [turning, iteration_ongoing (admits machine holds) (ongoing fuel (by omega)) (clashes fuel (by omega))]
  simp only [Bind.bind, EStateM.bind, Bool.false_eq_true, if_false, Run.undoTo, modify, modifyGet,
    MonadStateOf.modifyGet, EStateM.modifyGet, Pure.pure, EStateM.pure, before.undoTo]
  rfl

end Presents

/-! ## Two ways -/

namespace Threads

theorem terminal_known (threads : Threads) :
    ∀ term ∈ threads.terminal, ∀ id ∈ term.occurrences, id ∈ threads.endNames :=
  fun _ member _ occurs => mem_endNames member occurs

theorem head_known (threads : Threads) (body : Term) :
    ∀ term ∈ threads.head, ∀ id ∈ term.occurrences, id ∈ threads.stepNames body :=
  fun _ member _ occurs => mem_stepNames (by simp [member]) occurs

end Threads

/-- How the rounds of a loop are made. -/
inductive LoopWay where
  /-- By calls of the procedure with a number. -/
  | procedure (number : Nat)
  /-- From the plan. -/
  | plan

namespace LoopWay

/-- What the rounds of a loop present from some arguments on. -/
def Presents (way : LoopWay) (invariant : Machine → Prop) (σ : Type) (threads : Threads) (body : Term) (args : List Term)
    (depth : Nat) (bindings : Bindings) (solutions : List (Bindings → Prop)) (fault : Option RunError) : Prop :=
  match way with
  | .procedure number =>
    HornLoops.Presents invariant (solving σ (.build (Procedures.nameOf number) args) depth) bindings solutions fault
  | .plan => ∀ spare, HornLoops.Presents (σ := σ) invariant
      (fun fuel _ k => iterate (solve (fuel + spare)) (threads.plan body) k fuel args depth) bindings solutions fault

/-- Rounds can be made: a procedure is registered. -/
def Ready (way : LoopWay) (invariant : Machine → Prop) (threads : Threads) (body : Term) : Prop :=
  match way with
  | .procedure number =>
    ∀ machine, invariant machine → machine.Installed (threads.procedure (Procedures.nameOf number) body)
  | .plan => True

/-- What is done in an iteration. -/
def proceed (way : LoopWay) (threads : Threads) (body : Term) (depth spare fuel : Nat) (k : Continuation σ)
    (goals call : List Term) (inner : Nat) : Continuation σ :=
  match way with
  | .procedure number => solve fuel σ (.conjunction (goals ++ [.build (Procedures.nameOf number) call])) (depth + 1) inner k
  | .plan => solve (fuel + (1 + spare)) σ (.conjunction goals) (depth + 1) inner
      (iterate (solve (fuel + (1 + spare))) (threads.plan body) k fuel call (depth + 1))

variable {way : LoopWay} {threads : Threads} {body : Term} {args : List Term} {solutions : List (Bindings → Prop)}
  {fault : Option RunError}

/-- Each round is a turn. -/
theorem presents_of_turn (ready : way.Ready invariant threads body) (fits : args.length = threads.arity)
    (presents : ∀ spare, HornLoops.Presents (σ := σ) invariant
      (turning threads body args depth (way.proceed threads body depth spare)) bindings solutions fault) :
    way.Presents invariant σ threads body args depth bindings solutions fault := by
  cases way with
  | procedure number =>
    apply (presents 0).succ
    intro fuel barrier k acc machine holds _
    rw [solving, solve_call (ready machine holds) fits, callProcedure_eq_iteration]
    rfl
  | plan =>
    intro spare
    apply (presents spare).succ
    intro fuel barrier k acc machine _ _
    show iterate (solve (fuel + 1 + spare)) (threads.plan body) k (fuel + 1) args depth acc machine = _
    rw [iterate_succ_eq_iteration, Nat.add_assoc fuel 1 spare]
    rfl

variable {goals call : List Term} {begun between : Bindings} {plan : LoopPlan}

/-- An iteration whose goals have one solution goes on with the next round. -/
theorem proceed_presents (steady : Steady invariant) (runs : Runs invariant σ (depth + 1) goals begun between)
    (presents : way.Presents invariant σ threads body call (depth + 1) between solutions fault) (spare : Nat) :
    HornLoops.Presents (σ := σ) invariant
      (fun fuel inner k => way.proceed threads body depth spare fuel k goals call inner) begun solutions fault := by
  cases way with
  | procedure number => exact runs.presents steady (build_nameOf_ne_truth number call) presents
  | plan => exact (runs.attains.spare (1 + spare)).andThen steady (presents (1 + spare))

/-- An iteration whose last goal is an error goes no further. -/
theorem proceed_faults (steady : Steady invariant) {last : Term} (other : last ≠ .truth)
    (runs : Runs invariant σ (depth + 1) goals begun between)
    (presents : HornLoops.Presents invariant (solving σ last (depth + 1)) between [] fault) (spare : Nat) :
    HornLoops.Presents (σ := σ) invariant
      (fun fuel inner k => way.proceed threads body depth spare fuel k (goals ++ [last]) call inner) begun [] fault := by
  cases way with
  | procedure number =>
    have whole := runs.fails steady other presents [.build (Procedures.nameOf number) call]
    rwa [List.append_cons] at whole
  | plan => exact ((runs.fails steady other presents []).spare (1 + spare)).andNever _

section

variable (steady : Steady invariant) (admits : ∀ machine, invariant machine → machine.Admits depth)
  (ready : way.Ready invariant threads body) (fits : args.length = threads.arity)
  {relation : (Nat → Term) → List Term → Prop} (relates : bindings.Relates limit args relation)
include steady admits ready fits relates

/-- A round with arguments that end the loop. -/
theorem closes {outer value : Nat → Term} (possible : relation outer (threads.terminal.map (Term.subst value)))
    {known : (Nat → Term) → Prop}
    (same : ∀ outer, known outer ↔ ∃ value, relation outer (threads.terminal.map (Term.subst value))) :
    way.Presents invariant σ threads body args depth bindings [fun after => after.Tells limit known] none := by
  obtain ⟨after, enough, grown, ended, scope⟩ := relates.matching threads.terminal_known possible
  refine presents_of_turn ready fits fun spare => ?_
  exact (Presents.turnEnds steady admits ended grown).presents steady (scope.tells same)

/-- How the variables of an iteration are numbered. -/
abbrev number (threads : Threads) (body : Term) (bindings : Bindings) : Nat → Nat :=
  copyNumber (threads.stepNames body) (endStore threads bindings).size

variable (clash : Clash relation threads.terminal)
include clash

/-- A round with arguments that start an iteration. -/
theorem goes {outer value : Nat → Term} (possible : relation outer (threads.head.map (Term.subst value))) :
    ∃ begun, begun.Scope limit (threads.stepNames body) (number threads body bindings)
        (fun outer value => relation outer (threads.head.map (Term.subst value))) ∧
      (∀ between solutions fault,
        Runs invariant σ (depth + 1) ((threads.steps ++ [body]).map (Term.rename (number threads body bindings))) begun
          between →
        way.Presents invariant σ threads body (threads.call.map (Term.rename (number threads body bindings))) (depth + 1)
          between solutions fault →
        way.Presents invariant σ threads body args depth bindings solutions fault) ∧
      ∀ between fault,
        Runs invariant σ (depth + 1) (threads.steps.map (Term.rename (number threads body bindings))) begun between →
        body.rename (number threads body bindings) ≠ .truth →
        HornLoops.Presents invariant (solving σ (body.rename (number threads body bindings)) (depth + 1)) between []
          fault →
        way.Presents invariant σ threads body args depth bindings [] fault := by
  obtain ⟨enough, ongoing⟩ := relates.clashes threads.terminal_known clash
  obtain ⟨begun, enough', grown, begins, scope⟩ := (relates.reserve _).matching (threads.head_known body) possible
  have copied := threads.stepCopy_eq body (endStore threads bindings).size
  have begins' : ∀ fuel ≥ enough', (stepStore threads body bindings).unifyAll fuel
      (threads.stepCopy body (endStore threads bindings).size).1 args = (some true, begun) := by
    rw [copied]
    exact begins
  refine ⟨begun, scope, fun between solutions fault runs presents => ?_, fun between fault runs other presents => ?_⟩
  · refine presents_of_turn ready fits fun spare => Presents.turnGoes steady admits ongoing begins' grown ?_
    rw [copied]
    exact proceed_presents steady runs presents spare
  · refine presents_of_turn ready fits fun spare => Presents.turnGoes steady admits ongoing begins' grown ?_
    rw [copied, List.map_append]
    exact proceed_faults steady other runs presents spare

/-- A round with arguments that neither end the loop nor start an iteration. -/
theorem fails (clash' : Clash relation threads.head) :
    way.Presents invariant σ threads body args depth bindings [] none := by
  obtain ⟨enough, ongoing⟩ := relates.clashes threads.terminal_known clash
  obtain ⟨enough', clashes⟩ := (relates.reserve _).clashes (threads.head_known body) clash'
  have clashes' : ∀ fuel ≥ enough', (stepStore threads body bindings).unifyAll fuel
      (threads.stepCopy body (endStore threads bindings).size).1 args = (some false, stepStore threads body bindings) := by
    rw [threads.stepCopy_eq]
    exact clashes
  exact presents_of_turn ready fits fun spare => Presents.turnFails steady admits ongoing clashes'

end

/-! ## Starting a loop -/

/-- A goal that calls a procedure starts with the goals before the loop. -/
theorem presents_initialGoal (steady : Steady invariant) {called : Nat} {number : Nat → Nat}
    (runs : Runs invariant σ depth (threads.prelude.map (Term.rename number)) bindings between)
    (presents : (LoopWay.procedure called).Presents invariant σ threads body
      (threads.initial.map (Term.rename number)) depth between solutions fault) :
    HornLoops.Presents invariant
      (solving σ ((threads.initialGoal (Procedures.nameOf called)).rename number) depth) bindings solutions fault := by
  rw [Threads.initialGoal, Term.rename_conjunction, List.map_append, List.map_singleton, Term.rename_build]
  exact runs.presents steady (build_nameOf_ne_truth called _) presents

/-- What is done from a plan depends on its iterations only. -/
theorem iterate_congr {plan' : LoopPlan} (terminal : plan'.terminal = plan.terminal) (step : plan'.step = plan.step)
    (solver : Solver) (k : Continuation σ) (fuel : Nat) (args : List Term) (depth : Nat) :
    iterate solver plan' k fuel args depth = iterate solver plan k fuel args depth := by
  induction fuel generalizing args depth with
  | zero => rfl
  | succ fuel ih =>
    funext acc
    simp only [iterate, terminal, step, ih]

/-- So does the loop when it is carried out from a plan with the same iterations. -/
theorem presents_interpret (steady : Steady invariant) (terminal : plan.terminal = (threads.plan body).terminal)
    (step : plan.step = (threads.plan body).step) (runs : Runs invariant σ depth plan.prelude bindings between)
    (presents : LoopWay.plan.Presents invariant σ threads body plan.initial depth between solutions fault) :
    HornLoops.Presents (σ := σ) invariant (fun fuel barrier => interpret fuel (solve fuel) plan depth barrier) bindings
      solutions fault := by
  apply (runs.attains.andThen steady (presents 0)).congr
  intro fuel barrier k acc machine _ _
  simp only [interpret, iterate_congr terminal step]

end LoopWay

end HornLoops
