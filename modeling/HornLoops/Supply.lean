import HornLoops.Term.Basic

/-!
# Supply of variables

Reading a text and compiling a loop take new variables. Since a variable is known by its number alone, all
they need is the next free number. They hand back the next free number after them also when they fail, so that
what was taken is never given out twice.
-/

namespace HornLoops

/-- A computation that may take new variables, counting on from the next free number, and may fail. -/
abbrev Supplied (ε α : Type) := EStateM ε Nat α

namespace Supplied

/-- A new variable. -/
def fresh {ε : Type} : Supplied ε Term := modifyGet fun next => (.var next, next + 1)

end Supplied

section

variable {ε σ α β : Type} {action : EStateM ε σ α} {next : α → EStateM ε σ β} {before after : σ}

/-- A step that succeeds is followed by the next one. -/
theorem bind_of_ok {value : α} (ended : action before = .ok value after) :
    (action >>= next) before = next value after := by
  simp only [Bind.bind, EStateM.bind, ended]

/-- Two steps that succeed one after the other succeed on their own. -/
theorem exists_of_bind {value : β} (ended : (action >>= next) before = .ok value after) :
    ∃ first between, action before = .ok first between ∧ next first between = .ok value after := by
  cases begun : action before with
  | ok first between => exact ⟨first, between, rfl, (bind_of_ok begun).symm.trans ended⟩
  | error error between => simp [Bind.bind, EStateM.bind, begun] at ended

/-- A computation that has been evaluated. -/
theorem exists_of_run' {value : α} (found : action.run' before = some value) : ∃ after, action before = .ok value after := by
  delta EStateM.run' EStateM.run at found
  cases result : action before with
  | ok value' after =>
    rw [result] at found
    exact ⟨after, by rw [Option.some.inj found]⟩
  | error error after => simp [result] at found

end

end HornLoops
