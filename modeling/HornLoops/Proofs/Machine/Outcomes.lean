import HornLoops.Proofs.Machine.Copying
import HornLoops.Proofs.Machine.Coupling

/-!
# Searches with several solutions

A search presents its solutions one after the other to a continuation and comes to an end afterwards, possibly with an
error. What a search does is therefore told by the stores in which its solutions are found, in order, and by the error.
As long as the continuation asks for more, what was collected passes through it once for each solution. Searches are
told from their parts: sequences, alternatives, clauses and iterations of loops.
-/

namespace HornLoops

open Machine

variable {σ τ : Type} {invariant : Machine → Prop}

/-! ## Runs that conclude -/

/-- A property of machines that depends on settings, program and procedures only. -/
def Steady (invariant : Machine → Prop) : Prop :=
  ∀ machine after : Machine, after.settings = machine.settings → after.program = machine.program →
    after.procedures = machine.procedures → invariant machine → invariant after

/-- A run ends with a collected value and asks for more, with some bindings and on a machine with a property, or it ends
with an error. Variables that were taken on the way may be left. -/
def Concludes (invariant : Machine → Prop) (bindings : Bindings) :
    Except RunError σ → EStateM.Result Stop Machine (Outcome σ) → Prop
  | .ok acc, result => ∃ later, result = .ok (.more, acc) later ∧ (∃ size, later.bindings = bindings.reserve size) ∧
      invariant later
  | .error error, result => ∃ later, result = .error (.error error) later

namespace Concludes

variable {machine : Machine} {bindings bindings' : Bindings} {value : Except RunError σ} {action : Run (Outcome σ)}

/-- A run that leaves the bindings as they were. -/
theorem same {acc : σ} (holds : invariant machine) :
    Concludes invariant machine.bindings (.ok acc) (.ok (.more, acc) machine) :=
  ⟨machine, rfl, ⟨machine.bindings.size, Bindings.reserve_size.symm⟩, holds⟩

/-- Variables that are taken before a run are left after it. -/
theorem of_reserve {size : Nat} {result : EStateM.Result Stop Machine (Outcome σ)}
    (ends : Concludes invariant (bindings.reserve size) value result) :
    Concludes invariant bindings value result := by
  cases value with
  | error error => exact ends
  | ok acc =>
    obtain ⟨later, ended, ⟨size', grown⟩, holds⟩ := ends
    exact ⟨later, ended, ⟨max size size', by rw [grown, Bindings.reserve_reserve]⟩, holds⟩

/-- Going back to an earlier store after a run, and what is done then. -/
theorem undoThen (steady : Steady invariant) {bindings'' : Bindings} {next : σ → Except RunError τ}
    {rest : Outcome σ → Run (Outcome τ)} (ends : Concludes invariant bindings value (action machine))
    (grown : bindings'.Grown bindings) (further : ∀ acc later, later.bindings = bindings' → invariant later →
      Concludes invariant bindings'' (next acc) (rest (.more, acc) later)) :
    Concludes invariant bindings'' (value >>= next) ((do
      let result ← action
      Run.undoTo bindings'.mark
      rest result) machine) := by
  cases value with
  | error error =>
    obtain ⟨later, ended⟩ := ends
    exact ⟨later, by simp only [Bind.bind, EStateM.bind, ended]⟩
  | ok acc =>
    obtain ⟨later, ended, ⟨size, same⟩, holds⟩ := ends
    have back : later.bindings.undoTo bindings'.mark = bindings' := by
      rw [same]
      exact (grown.trans (Bindings.Grown.reserve bindings size)).undoTo
    have continued : (do
        let result ← action
        Run.undoTo bindings'.mark
        rest result) machine = rest (.more, acc) { later with bindings := bindings' } := by
      simp only [Run.undoTo, modify, modifyGet, MonadStateOf.modifyGet, EStateM.modifyGet, Bind.bind, EStateM.bind, ended,
        back]
    rw [continued]
    exact further acc _ rfl (steady later _ rfl rfl rfl holds)

/-- Going back to an earlier store after a run. -/
theorem undoTo (steady : Steady invariant) (ends : Concludes invariant bindings value (action machine))
    (grown : bindings'.Grown bindings) (finish : Outcome σ → Outcome τ) (next : σ → τ)
    (finished : ∀ acc, finish (.more, acc) = (.more, next acc)) :
    Concludes invariant bindings' (next <$> value) ((do
      let result ← action
      Run.undoTo bindings'.mark
      return finish result) machine) := by
  rw [map_eq_pure_bind]
  refine ends.undoThen steady grown fun acc later back holds => ?_
  rw [← back, finished]
  exact same holds

end Concludes

/-! ## Solutions in order -/

/-- A search with some fuel and with a barrier for its cuts. -/
abbrev Search (σ : Type) := Nat → Nat → Continuation σ → Continuation σ

/-- A continuation deals in a certain way with the solutions of a kind that are found on machines with a property. It
leaves a machine with another property. -/
def Continuation.Takes (found final : Machine → Prop) (k : Continuation σ) (holds : Bindings → Prop)
    (note : σ → Except RunError σ) : Prop :=
  ∀ machine acc, found machine → holds machine.bindings →
    Concludes final machine.bindings (note acc) (k acc machine)

/-- What is collected from solutions in order, and an error at the end if there is one. -/
def collectAll (notes : List (σ → Except RunError σ)) (fault : Option RunError) (acc : σ) : Except RunError σ := do
  let acc ← notes.foldlM (fun acc note => note acc) acc
  match fault with
  | none => return acc
  | some error => throw error

@[simp] theorem collectAll_single (note : σ → Except RunError σ) (acc : σ) : collectAll [note] none acc = note acc := by
  simp [collectAll]

theorem collectAll_append (notes notes' : List (σ → Except RunError σ)) (fault : Option RunError) (acc : σ) :
    collectAll (notes ++ notes') fault acc = collectAll notes none acc >>= collectAll notes' fault := by
  simp only [collectAll, List.foldlM_append, bind_assoc, pure_bind]

theorem takes_append {found final : Machine → Prop} {k : Continuation σ} {solutions solutions' : List (Bindings → Prop)}
    {notes : List (σ → Except RunError σ)}
    (takes : List.Forall₂ (k.Takes found final) (solutions ++ solutions') notes) :
    List.Forall₂ (k.Takes found final) solutions (notes.take solutions.length) ∧
      List.Forall₂ (k.Takes found final) solutions' (notes.drop solutions.length) := by
  have early := List.forall₂_take solutions.length takes
  have late := List.forall₂_drop solutions.length takes
  rw [List.take_left] at early
  rw [List.drop_left] at late
  exact ⟨early, late⟩

/-- With enough fuel, a search that starts with some bindings presents solutions of the given kinds in order and then
ends, with an error if there is one. Three properties of machines are told apart: when the search starts, when it finds
solutions, and when it ends. -/
def PresentsFrom (initial found final : Machine → Prop) (search : Search σ) (bindings : Bindings)
    (solutions : List (Bindings → Prop)) (fault : Option RunError) : Prop :=
  ∃ enough, ∀ fuel ≥ enough, ∀ barrier machine, initial machine → machine.bindings = bindings →
    ∀ (k : Continuation σ) notes, List.Forall₂ (k.Takes found final) solutions notes → ∀ acc,
      Concludes final bindings (collectAll notes fault acc) (search fuel barrier k acc machine)

/-- A search presents solutions, and a property of machines is kept. -/
abbrev Presents (invariant : Machine → Prop) (search : Search σ) (bindings : Bindings)
    (solutions : List (Bindings → Prop)) (fault : Option RunError) : Prop :=
  PresentsFrom invariant invariant invariant search bindings solutions fault

/-- A search presents one solution, which is found in a certain store and on a machine with the property that the search
starts with. What holds at the end is up to the continuation. -/
def Attains (invariant : Machine → Prop) (search : Search σ) (bindings after : Bindings) : Prop :=
  ∀ final, Steady final → PresentsFrom invariant invariant final search bindings [(· = after)] none

namespace PresentsFrom

variable {initial found final : Machine → Prop} {search search' : Search σ} {bindings between after : Bindings}
  {solutions : List (Bindings → Prop)} {fault : Option RunError}

variable (presents : PresentsFrom initial found final search bindings solutions fault)
include presents

/-- More fuel does no harm. -/
theorem spare (extra : Nat) :
    PresentsFrom initial found final (fun fuel => search (fuel + extra)) bindings solutions fault := by
  obtain ⟨enough, presents⟩ := presents
  exact ⟨enough, fun fuel more => presents (fuel + extra) (by omega)⟩

/-- A search that takes one more unit of fuel. -/
theorem succ (same : ∀ fuel barrier k acc machine, initial machine → machine.bindings = bindings →
      search' (fuel + 1) barrier k acc machine = search fuel barrier k acc machine) :
    PresentsFrom initial found final search' bindings solutions fault := by
  obtain ⟨enough, presents⟩ := presents
  refine ⟨enough + 1, fun fuel more barrier machine holds here k notes takes acc => ?_⟩
  obtain ⟨fuel, rfl⟩ : ∃ rest, fuel = rest + 1 := ⟨fuel - 1, by omega⟩
  rw [same fuel barrier k acc machine holds here]
  exact presents fuel (by omega) barrier machine holds here k notes takes acc

/-- Only what the search does with some fuel and on machines with the property matters. -/
theorem congr (same : ∀ fuel barrier k acc machine, initial machine → machine.bindings = bindings →
      search' (fuel + 1) barrier k acc machine = search (fuel + 1) barrier k acc machine) :
    PresentsFrom initial found final search' bindings solutions fault :=
  (presents.spare 1).succ same

omit presents

/-- What follows a search without solutions is not reached. -/
theorem andNever (presents : PresentsFrom initial found final search bindings [] fault) (search' : Search σ) :
    PresentsFrom initial found final (fun fuel barrier k => search fuel barrier (search' fuel barrier k)) bindings []
      fault := by
  obtain ⟨enough, presents⟩ := presents
  refine ⟨enough, fun fuel more barrier machine holds here k notes takes acc => ?_⟩
  obtain rfl := List.forall₂_nil_left_iff.mp takes
  exact presents fuel more barrier machine holds here (search' fuel barrier k) [] .nil acc

end PresentsFrom

namespace Attains

variable {found final : Machine → Prop} {search search' : Search σ} {bindings between after : Bindings}
  {solutions : List (Bindings → Prop)} {fault : Option RunError}

/-- To attain a store is to hand it on and to go back. -/
theorem intro (enough : Nat)
    (attains : ∀ fuel ≥ enough, ∀ barrier machine, invariant machine → machine.bindings = bindings →
      ∀ final, Steady final → ∀ (k : Continuation σ) note, k.Takes invariant final (· = after) note → ∀ acc,
        Concludes final bindings (note acc) (search fuel barrier k acc machine)) :
    Attains invariant search bindings after := by
  refine fun final steady => ⟨enough, fun fuel more barrier machine holds here k notes takes acc => ?_⟩
  obtain ⟨note, _, take, rest, rfl⟩ := List.forall₂_cons_left_iff.mp takes
  obtain rfl := List.forall₂_nil_left_iff.mp rest
  rw [collectAll_single]
  exact attains fuel more barrier machine holds here final steady k note take acc

/-- Nothing is done. -/
theorem here (bindings : Bindings) : Attains (σ := σ) invariant (fun _ _ k => k) bindings bindings := by
  apply intro 0
  rintro _ _ _ machine holds rfl final _ k note take acc
  exact take machine acc holds rfl

variable (attains : Attains invariant search bindings after)
include attains

theorem congr (same : ∀ fuel barrier k acc machine, invariant machine → machine.bindings = bindings →
      search' (fuel + 1) barrier k acc machine = search (fuel + 1) barrier k acc machine) :
    Attains invariant search' bindings after := fun final steady => (attains final steady).congr same

theorem succ (same : ∀ fuel barrier k acc machine, invariant machine → machine.bindings = bindings →
      search' (fuel + 1) barrier k acc machine = search fuel barrier k acc machine) :
    Attains invariant search' bindings after := fun final steady => (attains final steady).succ same

theorem spare (extra : Nat) : Attains invariant (fun fuel => search (fuel + extra)) bindings after :=
  fun final steady => (attains final steady).spare extra

omit attains

/-- One search after another one with one solution. -/
theorem andThen (attains : Attains invariant search bindings between) (steady : Steady final)
    (presents : PresentsFrom invariant found final search' between solutions fault) :
    PresentsFrom invariant found final (fun fuel barrier k => search fuel barrier (search' fuel barrier k)) bindings
      solutions fault := by
  obtain ⟨enough, attains⟩ := attains final steady
  obtain ⟨enough', presents⟩ := presents
  refine ⟨max enough enough', fun fuel more barrier machine holds here k notes takes acc => ?_⟩
  have inner : (search' fuel barrier k).Takes invariant final (· = between) (collectAll notes fault) := by
    rintro machine acc holds rfl
    exact presents fuel (by omega) barrier machine holds rfl k notes takes acc
  have outer := attains fuel (by omega) barrier machine holds here (search' fuel barrier k)
    [collectAll notes fault] (.cons inner .nil) acc
  rwa [collectAll_single] at outer

theorem trans (attains : Attains invariant search bindings between) (attains' : Attains invariant search' between after) :
    Attains invariant (fun fuel barrier k => search fuel barrier (search' fuel barrier k)) bindings after :=
  fun final steady => attains.andThen steady (attains' final steady)

/-- What is known of the only store in which a solution is found. -/
theorem presents {holds : Bindings → Prop} (attains : Attains invariant search bindings after) (steady : Steady invariant)
    (known : holds after) : Presents invariant search bindings [holds] none := by
  obtain ⟨enough, attains⟩ := attains invariant steady
  refine ⟨enough, fun fuel more barrier machine holds here k notes takes acc => ?_⟩
  refine attains fuel more barrier machine holds here k notes ?_ acc
  obtain ⟨note, _, take, rest, rfl⟩ := List.forall₂_cons_left_iff.mp takes
  refine .cons (fun machine acc holds found => ?_) rest
  exact take machine acc holds (found ▸ known)

end Attains

/-! ## Goals -/

/-- The search for the solutions of a goal. -/
abbrev solving (σ : Type) (goal : Term) (depth : Nat) : Search σ := fun fuel barrier => solve fuel σ goal depth barrier

theorem Goal.isVar_eq_false {goal : Term} {asked : Goal} (known : Goal.ofTerm goal = .ok asked) : goal.isVar = false := by
  cases goal with
  | var id => simp [Goal.ofTerm] at known
  | int value => rfl
  | atom name => rfl
  | compound name first rest => rfl

/-- A predicate that is built in has its effect. -/
theorem solve_builtin {goal : Term} {action : Builtin} (asked : Goal.ofTerm goal = .ok (.builtin action))
    (fuel depth barrier : Nat) (k : Continuation σ) (acc : σ) (machine : Machine) :
    solve (fuel + 1) σ goal depth barrier k acc machine =
      match action fuel machine.bindings with
      | .ok effect => perform fuel effect k acc machine
      | .error stop => .error stop machine := by
  rw [solve_succ (Goal.isVar_eq_false asked), asked]
  simp only [achieve, Run.get_bind]
  cases action fuel machine.bindings <;> rfl

section

variable {found final : Machine → Prop} {bindings between after : Bindings} {solutions : List (Bindings → Prop)}
  {fault : Option RunError} {depth : Nat} {left right : Term}

theorem Attains.truth (bindings : Bindings) (depth : Nat) :
    Attains invariant (solving σ .truth depth) bindings bindings := by
  apply (Attains.here bindings).succ
  intro fuel barrier k acc machine _ _
  rw [solving, solve_truth]

/-- A conjunction whose first goal has one solution. -/
theorem Attains.both (attains : Attains invariant (solving σ left depth) bindings between) (steady : Steady final)
    (presents : PresentsFrom invariant found final (solving σ right depth) between solutions fault) :
    PresentsFrom invariant found final (solving σ (.both left right) depth) bindings solutions fault := by
  apply (attains.andThen steady presents).succ
  intro fuel barrier k acc machine _ _
  rw [solving, solve_both]

/-- A conjunction whose first goal has no solution. -/
theorem PresentsFrom.bothNever {initial : Machine → Prop}
    (presents : PresentsFrom initial found final (solving σ left depth) bindings [] fault) (right : Term) :
    PresentsFrom initial found final (solving σ (.both left right) depth) bindings [] fault := by
  apply (presents.andNever (solving σ right depth)).succ
  intro fuel barrier k acc machine _ _
  rw [solving, solve_both]

variable {goal : Term} {action : Builtin} (asked : Goal.ofTerm goal = .ok (.builtin action))
include asked

theorem Attains.accepted (effect : ∀ fuel, action fuel bindings = .ok .accept) (depth : Nat) :
    Attains invariant (solving σ goal depth) bindings bindings := by
  apply (Attains.here bindings).succ
  rintro fuel barrier k acc machine _ rfl
  rw [solving, solve_builtin asked, effect]
  rfl

theorem Attains.equated {left right : Term} (effect : ∀ fuel, action fuel bindings = .ok (.equate 0 [left] [right]))
    {enough : Nat} (unified : ∀ fuel ≥ enough, bindings.unifyAll fuel [left] [right] = (some true, after))
    (grown : bindings.Grown after) (steady : Steady invariant) (depth : Nat) :
    Attains invariant (solving σ goal depth) bindings after := by
  apply intro (enough + 1)
  rintro fuel more barrier machine holds rfl final steady' k note take acc
  obtain ⟨fuel, rfl⟩ : ∃ rest, fuel = rest + 1 := ⟨fuel - 1, by omega⟩
  have taken := take { machine with bindings := after } acc (steady machine _ rfl rfl rfl holds) rfl
  have ends := taken.undoTo steady' grown id id fun _ => rfl
  rw [id_map] at ends
  have same : machine.bindings.reserve (machine.bindings.size + 0) = machine.bindings := Bindings.reserve_size
  rw [solving, solve_builtin asked, effect]
  simp only [perform, Run.take_bind, same]
  rw [equate, Run.mark_bind, Run.unifyAll_bind_some _ (unified fuel (by omega))]
  exact ends

theorem Presents.refused (effect : ∀ fuel, action fuel bindings = .ok .refuse) (depth : Nat) :
    Presents invariant (solving σ goal depth) bindings [] none := by
  refine ⟨1, fun fuel more barrier machine holds here k notes takes acc => ?_⟩
  obtain ⟨fuel, rfl⟩ : ∃ rest, fuel = rest + 1 := ⟨fuel - 1, by omega⟩
  obtain rfl := List.forall₂_nil_left_iff.mp takes
  subst here
  rw [solving, solve_builtin asked, effect]
  exact .same holds

theorem Presents.faulted {error : RunError} (effect : ∀ fuel, action fuel bindings = .error (.error error))
    (depth : Nat) : Presents invariant (solving σ goal depth) bindings [] (some error) := by
  refine ⟨1, fun fuel more barrier machine holds here k notes takes acc => ?_⟩
  obtain ⟨fuel, rfl⟩ : ∃ rest, fuel = rest + 1 := ⟨fuel - 1, by omega⟩
  obtain rfl := List.forall₂_nil_left_iff.mp takes
  subst here
  refine ⟨machine, ?_⟩
  rw [solving, solve_builtin asked, effect]

end

namespace Attains

variable {bindings after : Bindings} {depth : Nat} {condition consequence alternative : Term} {action : Builtin}
  (asked : Goal.ofTerm condition = .ok (.builtin action)) (steady : Steady invariant)
include asked steady

/-- A choice whose condition is a test that holds. -/
theorem ifTrue (effect : ∀ fuel, action fuel bindings = .ok .accept)
    (attains : Attains invariant (solving σ consequence depth) bindings after) :
    Attains invariant (solving σ (.binary ";" (.binary "->" condition consequence) alternative) depth) bindings after := by
  intro final steady'
  obtain ⟨enough, attains⟩ := attains final steady'
  refine ⟨enough + 2, fun fuel more barrier machine holds here k notes takes acc => ?_⟩
  obtain ⟨fuel, rfl⟩ : ∃ rest, fuel = rest + 2 := ⟨fuel - 2, by omega⟩
  subst here
  let inside : Machine := { machine with barriers := machine.barriers + 1 }
  have ends := attains (fuel + 1) (by omega) barrier inside (steady machine _ rfl rfl rfl holds) rfl k notes takes acc
  rw [solving, solve_choice]
  simp only [solveIf, Run.newBarrier, modifyGet, MonadStateOf.modifyGet, EStateM.modifyGet, Bind.bind, EStateM.bind,
    solve_builtin asked, effect, perform, Pure.pure, EStateM.pure]
  cases collected : collectAll notes none acc with
  | ok found =>
    rw [collected] at ends
    obtain ⟨later, ended, same, holds⟩ := ends
    refine ⟨later, ?_, same, holds⟩
    simp [inside, ended, Signal.orCut, Signal.beyond, EStateM.pure]
  | error error =>
    rw [collected] at ends
    obtain ⟨later, ended⟩ := ends
    refine ⟨later, ?_⟩
    simp [inside, ended]

/-- A choice whose condition is a test that does not hold. -/
theorem ifFalse (effect : ∀ fuel, action fuel bindings = .ok .refuse)
    (attains : Attains invariant (solving σ alternative depth) bindings after) :
    Attains invariant (solving σ (.binary ";" (.binary "->" condition consequence) alternative) depth) bindings after := by
  intro final steady'
  obtain ⟨enough, attains⟩ := attains final steady'
  refine ⟨enough + 2, fun fuel more barrier machine holds here k notes takes acc => ?_⟩
  obtain ⟨fuel, rfl⟩ : ∃ rest, fuel = rest + 2 := ⟨fuel - 2, by omega⟩
  subst here
  let inside : Machine := { machine with barriers := machine.barriers + 1 }
  have turned : solving σ (.binary ";" (.binary "->" condition consequence) alternative) depth (fuel + 2) barrier k acc
      machine = solve (fuel + 1) σ alternative depth barrier k acc inside := by
    rw [solving, solve_choice]
    simp only [solveIf, Run.newBarrier, modifyGet, MonadStateOf.modifyGet, EStateM.modifyGet, Bind.bind, EStateM.bind,
      solve_builtin asked, effect, perform, Pure.pure, EStateM.pure]
    rfl
  rw [turned]
  exact attains (fuel + 1) (by omega) barrier inside (steady machine _ rfl rfl rfl holds) rfl k notes takes acc

end Attains

/-! ## Clauses -/

/-- The search that tries clauses one after the other. -/
abbrev trying (σ : Type) (args : List Term) (depth : Nat) (clauses : List Clause) : Search σ :=
  fun fuel barrier k => tryClauses fuel (solve fuel) args depth barrier k clauses

namespace Presents

variable {bindings begun : Bindings} {solutions solutions' : List (Bindings → Prop)} {fault : Option RunError}
  {depth : Nat} {args params : List Term} {clause : Clause} {clauses : List Clause} {body : Term}

theorem noClauses (bindings : Bindings) (args : List Term) (depth : Nat) :
    Presents invariant (trying σ args depth []) bindings [] none := by
  refine ⟨0, fun fuel _ barrier machine holds here k notes takes acc => ?_⟩
  obtain rfl := List.forall₂_nil_left_iff.mp takes
  rw [← here]
  exact .same holds

/-- Trying a clause whose head matches. -/
theorem tryClauses_matched (copied : clause.instantiate bindings.size = (params, body)) {fuel : Nat}
    (matched : (bindings.reserve (bindings.size + clause.width)).unifyAll fuel params args = (some true, begun))
    (depth barrier : Nat) (k : Continuation σ) (acc : σ) {machine : Machine} (here : machine.bindings = bindings) :
    tryClauses fuel (solve fuel) args depth barrier k (clause :: clauses) acc machine =
      (do
        let result ← solve fuel σ body (depth + 1) barrier k acc
        Run.undoTo bindings.mark
        match result.1 with
        | .more => tryClauses fuel (solve fuel) args depth barrier k clauses result.2
        | signal => return (signal.beyond barrier, result.2)) { machine with bindings := begun } := by
  subst here
  rewrite [tryClauses, Run.mark_bind, Run.copyClause_bind, copied]
  exact Run.unifyAll_bind_some
    { machine with bindings := machine.bindings.reserve (machine.bindings.size + clause.width) } matched _

variable {found final initial : Machine → Prop} {enough : Nat}

/-- A clause whose head does not match is passed over. -/
theorem skipClause (copied : clause.instantiate bindings.size = (params, body))
    (clashes : ∀ fuel ≥ enough, (bindings.reserve (bindings.size + clause.width)).unifyAll fuel params args =
      (some false, bindings.reserve (bindings.size + clause.width)))
    (presents : Presents invariant (trying σ args depth clauses) bindings solutions fault) :
    Presents invariant (trying σ args depth (clause :: clauses)) bindings solutions fault := by
  obtain ⟨enough', presents⟩ := presents
  refine ⟨max enough enough', fun fuel more barrier machine holds here k notes takes acc => ?_⟩
  subst here
  have back : (machine.bindings.reserve (machine.bindings.size + clause.width)).undoTo machine.bindings.mark =
      machine.bindings := (Bindings.Grown.reserve _ _).undoTo
  have passed : trying σ args depth (clause :: clauses) fuel barrier k acc machine =
      tryClauses fuel (solve fuel) args depth barrier k clauses acc machine := by
    simp [trying, tryClauses, Run.mark, Run.copyClause, Run.take, Run.unifyAll, Run.undoTo, modify, modifyGet,
      MonadStateOf.modifyGet, EStateM.modifyGet, Bind.bind, EStateM.bind, get, getThe, MonadStateOf.get, EStateM.get,
      Pure.pure, EStateM.pure, copied, clashes fuel (by omega), back]
  rw [passed]
  exact presents fuel (by omega) barrier machine holds rfl k notes takes acc

/-- A clause whose head matches presents what its body presents, and the other clauses follow. -/
theorem tryClause (steady : Steady invariant) (copied : clause.instantiate bindings.size = (params, body))
    (matched : ∀ fuel ≥ enough, (bindings.reserve (bindings.size + clause.width)).unifyAll fuel params args =
      (some true, begun)) (grown : (bindings.reserve (bindings.size + clause.width)).Grown begun)
    (presents : Presents invariant (solving σ body (depth + 1)) begun solutions none)
    (presents' : Presents invariant (trying σ args depth clauses) bindings solutions' fault) :
    Presents invariant (trying σ args depth (clause :: clauses)) bindings (solutions ++ solutions') fault := by
  obtain ⟨enough₁, presents⟩ := presents
  obtain ⟨enough₂, presents'⟩ := presents'
  refine ⟨max enough (max enough₁ enough₂), fun fuel more barrier machine holds here k notes takes acc => ?_⟩
  subst here
  obtain ⟨takes, takes'⟩ := takes_append takes
  have ends := presents fuel (by omega) barrier { machine with bindings := begun } (steady machine _ rfl rfl rfl holds) rfl
    k _ takes acc
  rw [← List.take_append_drop solutions.length notes, collectAll_append, trying,
    tryClauses_matched copied (matched fuel (by omega)) depth barrier k acc rfl]
  refine ends.undoThen steady ((Bindings.Grown.reserve _ _).trans grown) fun acc later back holds => ?_
  exact presents' fuel (by omega) barrier later holds back k _ takes' acc

/-- The last clause presents what its body presents. -/
theorem lastClause (steady : Steady initial) (steady' : Steady final)
    (copied : clause.instantiate bindings.size = (params, body))
    (matched : ∀ fuel ≥ enough, (bindings.reserve (bindings.size + clause.width)).unifyAll fuel params args =
      (some true, begun)) (grown : (bindings.reserve (bindings.size + clause.width)).Grown begun)
    (presents : PresentsFrom initial found final (solving σ body (depth + 1)) begun solutions fault) :
    PresentsFrom initial found final (trying σ args depth [clause]) bindings solutions fault := by
  obtain ⟨enough', presents⟩ := presents
  refine ⟨max enough enough', fun fuel more barrier machine holds here k notes takes acc => ?_⟩
  subst here
  have ends := presents fuel (by omega) barrier { machine with bindings := begun } (steady machine _ rfl rfl rfl holds) rfl
    k notes takes acc
  rw [trying, tryClauses_matched copied (matched fuel (by omega)) depth barrier k acc rfl,
    ← bind_pure (collectAll notes fault acc)]
  refine ends.undoThen steady' ((Bindings.Grown.reserve _ _).trans grown) fun acc later back holds => ?_
  rw [← back]
  exact .same holds

/-- A call of a predicate tries the clauses of the program. -/
theorem calling (steady : Steady initial) {name : String} (asked : Goal.ofCall name args = .predicate name args)
    (known : ∀ machine, initial machine → machine.program.clausesFor name args.length = clause :: clauses)
    (admits : ∀ machine, initial machine → machine.Admits depth)
    (presents : PresentsFrom initial found final (trying σ args depth (clause :: clauses)) bindings solutions fault) :
    PresentsFrom initial found final (solving σ (.build name args) depth) bindings solutions fault := by
  obtain ⟨enough, presents⟩ := presents
  refine ⟨enough + 1, fun fuel more barrier machine holds here k notes takes acc => ?_⟩
  obtain ⟨fuel, rfl⟩ : ∃ rest, fuel = rest + 1 := ⟨fuel - 1, by omega⟩
  have ends := presents fuel (by omega) (machine.barriers + 1) { machine with barriers := machine.barriers + 1 }
    (steady machine _ rfl rfl rfl holds) here k notes takes acc
  have called : solving σ (.build name args) depth (fuel + 1) barrier k acc machine =
      trying σ args depth (clause :: clauses) fuel (machine.barriers + 1) k acc
        { machine with barriers := machine.barriers + 1 } := by
    rw [solving, solve_succ (Term.isVar_build name args), Goal.ofTerm_build, asked]
    simp only [achieve, callPredicate, Run.get_bind, known machine holds]
    rw [bind_of_ok (admits machine holds).checkDepth, Run.newBarrier_bind]
  rw [called]
  exact ends

end Presents

end HornLoops
