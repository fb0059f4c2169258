import HornLoops.Proofs.Machine.InStep

/-!
# Fuel has no influence on finished runs

A run with less fuel approximates a run with more: unless it is stopped for lack of fuel, both come to the same
result in the same state. Searches are in step with each other where lack of fuel is an excuse, so a search whose
continuation is approximated is approximated itself. Along the way a property of machines is kept that depends on
nothing but settings, program and procedures, where procedures may be added.
-/

namespace HornLoops

/-- Unless it runs out of fuel, the first computation does what the second one does, and if it comes to an end, a
property of machines is kept. -/
def Approximates (invariant : Machine → Prop) {α : Type} (lower upper : Run α) : Prop :=
  ∀ machine, invariant machine →
    match lower machine with
    | .ok value after => upper machine = .ok value after ∧ invariant after
    | .error (.error error) after => upper machine = .error (.error error) after
    | .error .exhausted _ => True

/-- A result other than having run out of fuel. -/
def Finished {α : Type} : EStateM.Result Stop Machine α → Prop
  | .error .exhausted _ => False
  | _ => True

instance Finished.decidable {α : Type} (result : EStateM.Result Stop Machine α) : Decidable (Finished result) :=
  match result with
  | .ok _ _ => .isTrue trivial
  | .error (.error _) _ => .isTrue trivial
  | .error .exhausted _ => .isFalse id

namespace Approximates

variable {invariant : Machine → Prop} {α : Type} {lower upper : Run α}

/-- A finished result is that of both computations. -/
theorem eq_of_finished (approximates : Approximates invariant lower upper) {machine : Machine}
    (holds : invariant machine) {result : EStateM.Result Stop Machine α} (ended : lower machine = result)
    (finished : Finished result) : upper machine = result := by
  have same := approximates machine holds
  rw [ended] at same
  match result with
  | .ok value after => exact same.1
  | .error (.error error) after => exact same

/-- Running out of fuel approximates everything. -/
theorem exhausted (upper : Run α) : Approximates invariant (throw .exhausted) upper :=
  fun _ _ => trivial

theorem trans {first second third : Run α} (left : Approximates invariant first second)
    (right : Approximates invariant second third) : Approximates invariant first third := by
  intro machine holds
  have low := left machine holds
  have high := right machine holds
  match result : first machine with
  | .ok value after =>
    simp only [result] at low
    rw [low.1] at high
    exact high
  | .error (.error error) after =>
    simp only [result] at low
    rw [low] at high
    exact high
  | .error .exhausted after => trivial

/-- Only states with the property matter, on the left. -/
theorem congr_left {lower' : Run α} (same : ∀ machine, invariant machine → lower machine = lower' machine)
    (approximates : Approximates invariant lower' upper) : Approximates invariant lower upper := by
  intro machine holds
  rw [same machine holds]
  exact approximates machine holds

/-- Only states with the property matter, on the right. -/
theorem congr_right {upper' : Run α} (same : ∀ machine, invariant machine → upper machine = upper' machine)
    (approximates : Approximates invariant lower upper') : Approximates invariant lower upper := by
  intro machine holds
  rw [same machine holds]
  exact approximates machine holds

end Approximates

/-! ## Searches -/

/-- Continuations that approximate each other. -/
def ContinuationLe (invariant : Machine → Prop) {σ : Type} (lower upper : Continuation σ) : Prop :=
  ∀ acc, Approximates invariant (lower acc) (upper acc)

/-- Solvers that approximate each other when their continuations do. -/
def SolverLe (invariant : Machine → Prop) (lower upper : Solver) : Prop :=
  ∀ {σ : Type} (goal : Term) (depth barrier : Nat) {k k' : Continuation σ},
    ContinuationLe invariant k k' →
      ContinuationLe invariant (lower σ goal depth barrier k) (upper σ goal depth barrier k')

namespace Approximates

variable {invariant : Machine → Prop} (lasting : Lasting invariant) {σ : Type}

/-- Lack of fuel is an excuse, and nothing else differs. -/
def footing : Footing where
  invariant := invariant
  lasting := lasting
  excuses stop := stop = .exhausted

/-- Continuations that approximate each other ask for the same. -/
theorem continuesInStep {k k' : Continuation σ} (continuations : ContinuationLe invariant k k') :
    ContinuesInStep (footing lasting) Eq (fun _ _ _ => True) Escape.never k k' := by
  refine ⟨Escape.kept_never k, ?_⟩
  rintro acc _ rfl machine holds
  have same := continuations acc machine holds.known
  show Footing.Ends _ _ _ (k acc machine) (k' acc machine)
  match result : k acc machine with
  | .ok outcome after =>
    simp only [result] at same
    rw [same.1]
    exact .ok ⟨(Signal.ahead_zero _).symm, rfl, .inr trivial⟩ ⟨same.2, Region.confines_everywhere _⟩
  | .error (.error error) after =>
    simp only [result] at same
    rw [same]
    exact .stop _
  | .error .exhausted after => exact .excused rfl

/-- Searches in step come to the same result. -/
theorem of_inStep {allowed : Signal → σ → σ → Prop} {lower upper : Run (Outcome σ)}
    (tallies : Tallies (footing lasting) Eq allowed Escape.never lower upper) : Approximates invariant lower upper := by
  intro machine known
  have ends := tallies machine ⟨known, Region.confines_everywhere _⟩
  have same : (footing lasting).pair machine = machine := rfl
  rw [same] at ends
  generalize lower machine = result at ends ⊢
  generalize upper machine = result' at ends ⊢
  cases ends with
  | @ok outcome outcome' after agree holds =>
    have equal : outcome' = outcome := Prod.ext (agree.signals.trans (Signal.ahead_zero _)) agree.values.symm
    exact ⟨congrArg (EStateM.Result.ok · _) equal, holds.known⟩
  | stop stop => cases stop <;> trivial
  | excused excused =>
    subst excused
    trivial
  | escaped met => exact (Escape.not_met_never met).elim

end Approximates

/-- A search with less fuel approximates one with more. -/
theorem solverLe_solve {invariant : Machine → Prop} (lasting : Lasting invariant) {small large : Nat}
    (le : small ≤ large) : SolverLe invariant (Machine.solve small) (Machine.solve large) := by
  intro σ goal depth barrier k k' continuations acc
  have fuels : (Approximates.footing lasting).Fuels small large := .inr ⟨rfl, le⟩
  have continues := Approximates.continuesInStep lasting continuations
  exact .of_inStep lasting
    (solversInStep_solve fuels depth barrier (Region.covers_everywhere goal) continues acc acc rfl)

end HornLoops
