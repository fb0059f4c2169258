import HornLoops.Machine.Session
import HornLoops.Proofs.Loop.Settling
import HornLoops.Proofs.Machine.Simulation

/-!
# Goals and clauses that are read, side by side

Two machines with the same settings that read the same goal or clause prepare it alike: they settle its loops in the
same way, or they compile its loops into goals that are counterparts of each other, or they refuse it for the same
reason. The variables that were read are the same on both machines, and those that were taken since correspond to each
other in the order of their age.
-/

namespace HornLoops

open Bindings Machine

/-! ## Machines between searches -/

namespace Bindings

/-- There are at least a number of variables, and none is bound. -/
structure Vacant (bindings : Bindings) (count : Nat) : Prop where
  /-- There are enough variables. -/
  room : count ≤ bindings.size
  /-- The store is well formed. -/
  formed : bindings.WellFormed
  /-- No variable is bound. -/
  unbound : ∀ id, bindings.lookup? id = none

theorem Vacant.reserve {bindings : Bindings} {count : Nat} (vacant : bindings.Vacant count) (size : Nat) :
    (bindings.reserve size).Vacant count := by
  refine ⟨?_, vacant.formed.reserve size, by simpa using vacant.unbound⟩
  rw [size_reserve]
  exact Nat.le_trans vacant.room (Nat.le_max_left _ _)

/-- Variables that were only just taken are unbound. -/
theorem vacant_reserve_empty (count : Nat) : (Bindings.empty.reserve count).Vacant count := by
  refine ⟨?_, WellFormed.empty.reserve count, fun id => by rw [lookup?_reserve]; rfl⟩
  rw [size_reserve]
  exact Nat.le_max_right _ _

end Bindings

/-- Two machines between searches: they correspond to each other, and the variables that were read are unbound. -/
structure Poised (comparison : Comparison) (count : Nat) (left right : Machine) : Prop where
  /-- All but the bindings correspond to each other. -/
  aligned : Aligned comparison left right
  /-- No variable of the first machine is bound. -/
  vacant : left.bindings.Vacant count
  /-- Nor is one of the second machine. -/
  vacant' : right.bindings.Vacant count

/-! ## Prepared goals -/

/-- What two machines have made of a goal whose variables are the first ones, up to a number: goals that are counterparts.
Their other variables were taken since. -/
structure Prepared (count : Nat) (number : Nat → Nat) (left right : Machine) (goal goal' : Term) : Prop where
  /-- Variables that were read are the same. -/
  old : ∀ id < count, number id = id
  /-- Older variables have older counterparts. -/
  ordered : ∀ {one other : Nat}, one < count ∨ one ∈ goal.occurrences → other < count ∨ other ∈ goal.occurrences →
    one < other → number one < number other
  /-- The variables are in the stores. -/
  inside : ∀ id ∈ goal.occurrences, id < left.bindings.size ∧ number id < right.bindings.size
  /-- The goals are counterparts. -/
  goals : Counterpart (Renamed Unreserved number)
    (SameLoop Unreserved left.procedures.entries right.procedures.entries) goal goal'

namespace Prepared

variable {count : Nat} {number : Nat → Nat} {left right : Machine} {goal goal' : Term}

/-- The variables that were read and those of the goals correspond to each other. -/
def link (prepared : Prepared count number left right goal goal') : Link where
  allowed := Unreserved
  known id := id < count ∨ id ∈ goal.occurrences
  number := number
  ordered := prepared.ordered

variable (prepared : Prepared count number left right goal goal')
include prepared

theorem mirrors (vacant : left.bindings.Vacant count) (vacant' : right.bindings.Vacant count) :
    Mirrors prepared.link left.bindings right.bindings where
  formed := vacant.formed
  formed' := vacant'.formed
  inside := by
    rintro id (old | occurs)
    · refine ⟨Nat.lt_of_lt_of_le old vacant.room, ?_⟩
      show number id < _
      rw [prepared.old id old]
      exact Nat.lt_of_lt_of_le old vacant'.room
    · exact prepared.inside id occurs
  cells id _ := by rw [vacant.unbound, vacant'.unbound, Option.map_none]
  covered id value _ cell := by
    rw [vacant.unbound] at cell
    contradiction

end Prepared

variable {count : Nat} {left right : Machine} {goal : Term}

/-- A goal without loops to compile is prepared as it is. -/
theorem Prepared.of_named (named : goal.Named Unreserved) (below : goal.Below count)
    (vacant : left.bindings.Vacant count) (vacant' : right.bindings.Vacant count) :
    Prepared count id left right goal goal where
  old _ _ := rfl
  ordered _ _ less := less
  inside id occurs :=
    ⟨Nat.lt_of_lt_of_le (below id occurs) vacant.room, Nat.lt_of_lt_of_le (below id occurs) vacant'.room⟩
  goals := .plain (.self named)

/-- Expansions of a goal over two stores are prepared goals. -/
theorem Prepared.of_expansion {next next' after after' : Nat} {goal₁ goal₂ : Term} {outside : VarSet}
    (generated : Generated left.procedures.entries) (generated' : Generated right.procedures.entries)
    (expansion : Expansion left.procedures.entries next goal outside goal₁ after)
    (expansion' : Expansion right.procedures.entries next' goal outside goal₂ after') (named : goal.Named Unreserved)
    (below : goal.Below count) (room : count ≤ next) (room' : count ≤ next') (inside : after ≤ left.bindings.size)
    (inside' : after' ≤ right.bindings.size) : ∃ number, Prepared count number left right goal₁ goal₂ := by
  have distinct : InjectiveOn id goal.occurrences := fun _ _ _ _ same => same
  have same : goal.rename id = goal := Term.rename_eq_self fun _ _ => rfl
  have renamed : Expansion right.procedures.entries next' (goal.rename id) outside goal₂ after' := same.symm ▸ expansion'
  obtain ⟨number, paired, goals⟩ := Expansion.counterpart ordinary_unreserved generated generated' expansion renamed named
    distinct (fun _ _ => Iff.rfl) (below.mono room) (same.symm ▸ below.mono room')
  have old (id : Nat) (small : id < count) : number id = id := paired.old id (by omega)
  -- A variable that occurs was read, or it was taken on the way.
  have kinds {id : Nat} (known : id < count ∨ id ∈ goal₁.occurrences) :
      id < count ∨ (id ∈ goal₁.occurrences ∧ next ≤ id ∧ id < after) := by
    rcases known with small | occurs
    · exact .inl small
    · exact (expansion.mem_occurrences occurs).imp (below id) fun taken => ⟨occurs, taken⟩
  refine ⟨number, old, ?_, ?_, goals⟩
  · intro one other known known' less
    rcases kinds known with small | ⟨occurs, new, _⟩ <;> rcases kinds known' with small' | ⟨occurs', new', _⟩
    · rwa [old one small, old other small']
    · have := (paired.new other occurs' new').1
      rw [old one small]
      omega
    · omega
    · exact paired.ordered one occurs other occurs' new less
  · intro id occurs
    rcases kinds (.inr occurs) with small | ⟨_, new, upper⟩
    · have := expansion.le
      have := expansion'.le
      rw [old id small]
      omega
    · have := (paired.new id occurs new).2
      omega

/-! ## Preparing -/

theorem Procedures.Evolved.expandGoal {start now : Procedures} (evolved : start.Evolved now) (next : Nat)
    (below : goal.Below next) (outside : VarSet) :
    now.Evolved (Compiler.storeAfter (Compiler.expandGoal goal outside) ⟨next, now⟩) :=
  evolved.storeAfter (Compiler.reaches_expandGoal ⟨next, now⟩ evolved.sound below outside)
    (Compiler.kept_maintains.expandGoal goal outside)

variable {comparison : Comparison} {count : Nat} {left right : Machine} {goal : Term}

/-- Two machines compile the loops of a goal alike. -/
theorem Poised.compiling (poised : Poised comparison count left right) (named : goal.Named Unreserved)
    (below : goal.Below count) (outside : VarSet) :
    Concurs comparison
      (fun treated treated' left right => Poised comparison count left right ∧
        ∃ number, Prepared count number left right treated.1 treated'.1)
      (Run.compiling (Compiler.expandGoal goal outside) left)
      (Run.compiling (Compiler.expandGoal goal outside) right) := by
  have room := below.mono poised.vacant.room
  have room' := below.mono poised.vacant'.room
  have same : goal.rename id = goal := Term.rename_eq_self fun _ _ => rfl
  have distinct : InjectiveOn id goal.occurrences := fun _ _ _ _ same => same
  have sound : (Compilation.mk left.bindings.size left.procedures).procedures.Sound := poised.aligned.store.sound
  have sound' : (Compilation.mk right.bindings.size right.procedures).procedures.Sound := poised.aligned.store'.sound
  have around (id : Nat) (_ : id ∈ goal.occurrences) : id ∈ outside ↔ id ∈ outside := Iff.rfl
  have compiles := Compiler.expandGoal_alike distinct around _ _ sound sound' room (same.symm ▸ room')
  rw [same] at compiles
  have store := poised.aligned.store.expandGoal left.bindings.size room outside
  have store' := poised.aligned.store'.expandGoal right.bindings.size room' outside
  have reaches := Compiler.reaches_expandGoal _ sound room outside
  have reaches' := Compiler.reaches_expandGoal _ sound' room' outside
  rcases compiles.ends with ⟨treated, after, treated', after', compiled, compiled', stores⟩ |
    ⟨error, after, error', after', compiled, compiled', fault, stores⟩
  · rw [Compiler.storeAfter_ok compiled] at store
    rw [Compiler.storeAfter_ok compiled'] at store'
    rw [Compiler.Reaches, compiled] at reaches
    rw [Compiler.Reaches, compiled'] at reaches'
    simp only [Run.compiling, compiled, compiled']
    refine .ok ⟨⟨?_, poised.vacant.reserve _, poised.vacant'.reserve _⟩, ?_⟩
    · exact { poised.aligned.grow store store' stores with }
    · refine Prepared.of_expansion store.sound.generated store'.sound.generated reaches.2.2.2 reaches'.2.2.2 named below
        poised.vacant.room poised.vacant'.room ?_ ?_
      · rw [size_reserve]
        exact Nat.le_max_right _ _
      · rw [size_reserve]
        exact Nat.le_max_right _ _
  · rw [Compiler.storeAfter_error compiled] at store
    rw [Compiler.storeAfter_error compiled'] at store'
    simp only [Run.compiling, compiled, compiled']
    exact .stop (congrArg ErrorKind.loop fault.symm) { poised.aligned.grow store store' stores with }

/-- The loops of a goal with some variables around it compiled, or settled if loops are left for later. -/
def Machine.prepareWith (outside : VarSet) (goal : Term) : Run Treated := do
  if (← get).settings.expandsAhead then Run.compiling (Compiler.expandGoal goal outside)
  else
    match settleGoal goal outside with
    | .ok treated => return treated
    | .error error => Run.fail (.loop error)

/-- There is nothing to prepare in a goal without loops. -/
theorem prepareWith_loopless (machine : Machine) (loopless : Loopless goal) (outside : VarSet) :
    Machine.prepareWith outside goal machine = .ok (goal, []) machine := by
  rw [Machine.prepareWith, Run.get_bind]
  split
  · rw [Compiler.expandGoal, treatGoal_loopless _ loopless]
    simp [Run.compiling, Pure.pure, EStateM.pure]
  · rw [settleGoal, treatGoal_loopless _ loopless]
    rfl

/-- Two machines prepare a goal alike. -/
theorem Poised.prepareWith (poised : Poised comparison count left right) (named : goal.Named Unreserved)
    (below : goal.Below count) (outside : VarSet) :
    Concurs comparison
      (fun treated treated' left right => Poised comparison count left right ∧
        ∃ number, Prepared count number left right treated.1 treated'.1)
      (Machine.prepareWith outside goal left) (Machine.prepareWith outside goal right) := by
  unfold Machine.prepareWith
  rw [Run.get_bind, Run.get_bind, poised.aligned.settings, poised.aligned.settings']
  cases comparison.settings.expandsAhead with
  | true => exact poised.compiling named below outside
  | false =>
    simp only [Bool.false_eq_true, if_false]
    match settled : settleGoal goal outside with
    | .error error => exact .fail rfl poised.aligned
    | .ok treated =>
      obtain ⟨named', kept⟩ := (settleGoal_eq_ok.mp settled).keeps ordinary_unreserved named
      have below' : treated.1.Below count := fun id occurs => below id (kept occurs)
      exact .ok ⟨poised, id, .of_named named' below' poised.vacant poised.vacant'⟩

end HornLoops
