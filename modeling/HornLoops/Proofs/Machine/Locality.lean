import HornLoops.Proofs.Machine.InStep

/-!
# Loops deal with what they can reach

A search that starts with a goal of a region stays in the region: every goal it comes to, every copy it makes and every
store it hands on belongs to it, so the variable outside is unbound whenever a solution is found. Two continuations that
agree on such stores can therefore not be told apart.

The goal of a compiled loop mentions the surroundings through the terms that its iterators look at once and through the
shared variables. So a loop cannot bind an unbound variable that is not reached from these, even if its iterators use
that variable for elements, positions or values of their own.
-/

namespace HornLoops

open Bindings Machine

/-! ## Compiled loops -/

/-- A continuation that binds no variable and releases none. -/
def Continuation.Quiet {σ : Type} (k : Continuation σ) : Prop :=
  ∀ acc before outcome after, k acc before = .ok outcome after →
    before.bindings.size ≤ after.bindings.size ∧ ∀ id, after.bindings.lookup? id = before.bindings.lookup? id

/-- Machines that do not differ, with searches in a region. -/
def Footing.within (region : Region) : Footing := { Footing.plain with region := region }

variable {region : Region} {σ : Type} {k k' : Continuation σ}

/-- Continuations that agree wherever the variable outside is unbound are in step in the region. -/
theorem Region.continuesInStep_of_quiet (quiet : k.Quiet)
    (agree : ∀ acc machine, (∀ id ∈ region.hidden, machine.bindings.lookup? id = none) → k' acc machine = k acc machine) :
    ContinuesInStep (Footing.within region) Eq (fun _ _ _ => True) Escape.never k k' := by
  refine ⟨Escape.kept_never k, ?_⟩
  rintro acc _ rfl machine holds
  show (Footing.within region).Ends _ _ (k acc machine) (k' acc machine)
  rw [agree acc machine holds.confined.unbound]
  cases ended : k acc machine with
  | error stop after => exact .stop stop
  | ok outcome after =>
    obtain ⟨grown, same⟩ := quiet acc machine outcome after ended
    have confined := holds.confined.of_lookup? (Nat.le_trans holds.confined.size grown) fun id => .inr (same id)
    exact .ok ⟨(Signal.ahead_zero _).symm, rfl, .inr trivial⟩ ⟨trivial, confined⟩

/-- Searches for goals of a region do not tell such continuations apart, and stay in the region. -/
theorem Region.solve_eq (continues : ContinuesInStep (Footing.within region) Eq (fun _ _ _ => True) Escape.never k k')
    {goal : Term} (covers : region.Covers goal) (fuel depth barrier : Nat) (acc : σ) {machine : Machine}
    (confined : region.Confines machine.bindings) :
    solve fuel σ goal depth barrier k' acc machine = solve fuel σ goal depth barrier k acc machine ∧
      ∀ outcome later, solve fuel σ goal depth barrier k acc machine = .ok outcome later →
        region.Confines later.bindings := by
  have fuels : (Footing.within region).Fuels fuel fuel := .inl rfl
  have ends := solversInStep_solve fuels depth barrier covers continues acc acc rfl machine ⟨trivial, confined⟩
  have same : (Footing.within region).pair machine = machine := rfl
  have lead : barrier + (Footing.within region).lead = barrier := rfl
  rw [same, lead] at ends
  generalize solve fuel σ goal depth barrier k acc machine = result at ends ⊢
  generalize solve fuel σ goal depth barrier k' acc machine = result' at ends ⊢
  cases ends with
  | @ok outcome outcome' after agree holds =>
    have equal : outcome' = outcome := Prod.ext (agree.signals.trans (Signal.ahead_zero _)) agree.values.symm
    refine ⟨by rw [equal]; rfl, ?_⟩
    rintro _ _ ⟨rfl, rfl⟩
    exact holds.confined
  | stop stop => exact ⟨rfl, fun _ _ impossible => by contradiction⟩
  | excused excused => exact excused.elim
  | escaped met => exact (Escape.not_met_never met).elim

/-- Variables that are local to a loop do not escape. First, a variable from before the loop was compiled is mentioned by
its goal only if its iterators look at it once, or if it is shared (or declared, where the shared variables are not
given). Second, let a variable be unbound, and let it not be reached through the store from those variables; it may well
be local to the iterators. Then the loop leaves it unbound: continuations that differ only where it is bound cannot be
told apart, since none is ever called there, and it is unbound at the end. -/
theorem Compiler.compileLoop_confined {specs body : Term} {shared : Option VarSet} {spec : LoopSpec}
    {loop : CompiledLoop} {before after : Compilation} (read : LoopSpec.ofTerm specs = .ok spec)
    (compiled : compileLoop specs body shared before = .ok loop after) :
    (∀ id ∈ loop.goal.occurrences, id < before.next → id ∈ spec.globalVars ∨ id ∈ shared.getD spec.declared) ∧
    ∀ (machine : Machine) (hidden : Nat), hidden < machine.bindings.size →
      machine.bindings.lookup? hidden = none →
      (∀ id ∈ loop.goal.occurrences, before.next ≤ id → id ≠ hidden ∧ machine.bindings.lookup? id = none) →
      (∀ id, id ∈ spec.globalVars ∨ id ∈ shared.getD spec.declared → ¬ machine.bindings.Leads id hidden) →
      ∀ {σ : Type} (fuel depth barrier : Nat) {k k' : Continuation σ} (acc : σ), k.Quiet →
        (∀ acc machine, machine.bindings.lookup? hidden = none → k' acc machine = k acc machine) →
        solve fuel σ loop.goal depth barrier k' acc machine = solve fuel σ loop.goal depth barrier k acc machine ∧
        ∀ outcome later, solve fuel σ loop.goal depth barrier k acc machine = .ok outcome later →
          later.bindings.lookup? hidden = none := by
  refine ⟨fun id occurs old => ?_, fun machine hidden present unbound taken apart σ fuel depth barrier k k' acc quiet
    agree => ?_⟩
  · rcases mem_of_compileLoop read compiled occurs with looked | given | new
    · exact .inl looked
    · exact .inr given
    · omega
  · let region := Region.around present
    have covers : region.Covers loop.goal := by
      intro id occurs leads
      rcases mem_of_compileLoop read compiled occurs with looked | given | new
      · exact apart id (.inl looked) leads
      · exact apart id (.inr given) leads
      · obtain ⟨other, free⟩ := taken id occurs new
        exact other (leads.eq_of_unbound free).symm
    have continues : ContinuesInStep (Footing.within region) Eq (fun _ _ _ => True) Escape.never k k' :=
      Region.continuesInStep_of_quiet quiet fun acc machine free => agree acc machine (free hidden rfl)
    obtain ⟨same, stays⟩ := Region.solve_eq continues covers fuel depth barrier acc
      (Region.confines_around present unbound)
    exact ⟨same, fun outcome later ended => (stays outcome later ended).unbound hidden rfl⟩

/-- The iterators of a loop that adds up `1` and `2`: the element is `V0`, and the sum goes from `V1` to `V2` and in
the end to `V3`. -/
def addingUp : Term :=
  .both (.build "foreach" [.var 0, .list [.int 1, .int 2]]) (.build "fromto" [.int 0, .var 1, .var 2, .var 3])

/-- The addition `V2 is V1 + V0`. -/
def addition : Term := .binary "is" (.var 2) (.binary "+" (.var 1) (.var 0))

/-- The loop that adds up `1` and `2` uses `V0` for its elements, and yet its goal does not mention it. Where all
variables are unbound, running the loop with a continuation that is known for stores without a value of `V0` only is
running it with a continuation that counts solutions. -/
theorem Compiler.compileLoop_confined_element :
    ∃ spec loop after, LoopSpec.ofTerm addingUp = .ok spec ∧
      compileLoop addingUp addition (some []) ⟨4, {}⟩ = .ok loop after ∧
      0 ∈ spec.localVars ∧ 0 ∉ loop.goal.occurrences ∧
      ∀ (fuel : Nat) (k : Continuation Nat),
        (∀ acc machine, machine.bindings.lookup? 0 = none → k acc machine = .ok (.more, acc + 1) machine) →
        solve fuel Nat loop.goal 0 0 k 0
            { bindings := Bindings.empty.reserve after.next, procedures := after.procedures } =
          solve fuel Nat loop.goal 0 0 (fun found => pure (.more, found + 1)) 0
            { bindings := Bindings.empty.reserve after.next, procedures := after.procedures } := by
  obtain ⟨mentions, runs⟩ := @compileLoop_confined addingUp addition (some []) _ _ ⟨4, {}⟩ _ rfl rfl
  refine ⟨_, _, _, rfl, rfl, by decide, fun occurs => ?_, fun fuel k agree => ?_⟩
  · have surrounding := mentions 0 occurs (by decide)
    revert surrounding
    decide
  · have quiet : Continuation.Quiet fun found : Nat => pure (.more, found + 1) := by
      rintro acc before _ _ ⟨rfl, rfl⟩
      exact ⟨Nat.le_refl _, fun _ => rfl⟩
    have apart (id : Nat) (given : id ∈ [3] ∨ id ∈ []) : ¬ (Bindings.empty.reserve 7).Leads id 0 := by
      intro leads
      have same := leads.eq_of_unbound (by rw [lookup?_reserve]; rfl)
      simp [← same] at given
    apply (runs _ 0 ?_ ?_ ?_ ?_ fuel 0 0 0 quiet agree).1
    · decide
    · decide
    · decide
    · exact apart

end HornLoops
