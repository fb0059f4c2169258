import HornLoops.Proofs.Machine.Covering

/-!
# Searches in step

Two searches for a goal come to the same solutions in the same order if their continuations ask for the same after each
solution. What they collect may differ, and so may how many barriers were set up, how deeply calls may be nested and how
much fuel there is. Where the first machine allows less, it may stop for that reason. The second search may be stopped
at a solution while the first one goes on or gives up there. A search for a goal of a region stays in the region, so only
what the continuations do there matters. The argument has one lemma per construct.
-/

namespace HornLoops

open Machine

/-- A property of machines that a search cannot break: it depends on settings, program and procedures only, and
lasts when procedures are added. -/
def Lasting (invariant : Machine → Prop) : Prop :=
  ∀ machine after : Machine, after.settings = machine.settings → after.program = machine.program →
    machine.procedures.entries <+: after.procedures.entries → invariant machine → invariant after

/-- How two machines may differ that search in step. -/
structure Footing where
  /-- What is known of the first machine. -/
  invariant : Machine → Prop := fun _ => True
  /-- A search cannot break it. -/
  lasting : Lasting invariant := by exact fun _ _ _ _ _ _ => trivial
  /-- Where the search takes place. -/
  region : Region := .everywhere
  /-- Why only the first machine may stop. -/
  excuses : Stop → Prop := fun _ => False
  /-- How deeply calls may be nested on the second machine. -/
  loosen : Option Nat → Option Nat := id
  /-- The limits are the same, or the limit of the first machine is smaller and an excuse. -/
  looser : ∀ machine, invariant machine → loosen machine.settings.depthLimit = machine.settings.depthLimit ∨
    (∀ bound, excuses (.error (.depthLimit bound))) ∧ ∀ bound', loosen machine.settings.depthLimit = some bound' →
      ∃ bound ≤ bound', machine.settings.depthLimit = some bound := by exact fun _ _ => .inl rfl
  /-- How many more barriers were set up on the second machine. -/
  lead : Nat := 0

namespace Footing

/-- Machines that do not differ. -/
def plain : Footing := {}

variable (footing : Footing)

/-- The second machine that goes with the first one. -/
def pair (machine : Machine) : Machine :=
  { machine with
    settings := { machine.settings with depthLimit := footing.loosen machine.settings.depthLimit }
    barriers := machine.barriers + footing.lead }

/-- The fuel is the same, or lack of it is an excuse and the second search has more. -/
def Fuels (fuel fuel' : Nat) : Prop := fuel' = fuel ∨ footing.excuses .exhausted ∧ fuel ≤ fuel'

/-- What holds of the first machine on the way. -/
structure Holds (machine : Machine) : Prop where
  /-- The invariant does. -/
  known : footing.invariant machine
  /-- The bindings are those of the region. -/
  confined : footing.region.Confines machine.bindings

variable {footing}

theorem Fuels.pred {fuel fuel' : Nat} (fuels : footing.Fuels (fuel + 1) fuel') :
    ∃ rest, fuel' = rest + 1 ∧ footing.Fuels fuel rest := by
  rcases fuels with rfl | ⟨excuse, le⟩
  · exact ⟨fuel, rfl, .inl rfl⟩
  · exact ⟨fuel' - 1, by omega, .inr ⟨excuse, by omega⟩⟩

/-- Whatever a step does to output, warnings and barriers, and if it adds procedures, the same holds while the bindings
stay in the region. -/
theorem Holds.step {machine after : Machine} (holds : footing.Holds machine)
    (settings : after.settings = machine.settings) (program : after.program = machine.program)
    (procedures : machine.procedures.entries <+: after.procedures.entries)
    (confined : footing.region.Confines after.bindings) : footing.Holds after :=
  ⟨footing.lasting machine after settings program procedures holds.known, confined⟩

/-- The second machine allows the nested calls that the first one allows. -/
theorem Holds.admits_pair {machine : Machine} (holds : footing.Holds machine) {depth : Nat}
    (admits : machine.Admits depth) : (footing.pair machine).Admits depth := by
  intro bound' limited'
  rcases footing.looser machine holds.known with same | ⟨_, looser⟩
  · exact admits bound' (same.symm.trans limited')
  · obtain ⟨bound, le, bounded⟩ := looser bound' limited'
    exact Nat.lt_of_lt_of_le (admits bound bounded) le

/-- How the two computations come to an end: with related values, with the same error, with an excuse of the first one, or
with an error of the second one that leaves something to be said about the first one. -/
inductive Ends (footing : Footing) {α β : Type} (related : α → β → Prop)
    (escapes : Stop → Machine → EStateM.Result Stop Machine α → Prop) :
    EStateM.Result Stop Machine α → EStateM.Result Stop Machine β → Prop
  | ok {value : α} {value' : β} {after : Machine} (values : related value value') (holds : footing.Holds after) :
      Ends footing related escapes (.ok value after) (.ok value' (footing.pair after))
  | stop (stop : Stop) {after : Machine} :
      Ends footing related escapes (.error stop after) (.error stop (footing.pair after))
  | excused {stop : Stop} {after : Machine} {result : EStateM.Result Stop Machine β} (excused : footing.excuses stop) :
      Ends footing related escapes (.error stop after) result
  | escaped {stop : Stop} {after : Machine} {result : EStateM.Result Stop Machine α} (escape : escapes stop after result) :
      Ends footing related escapes result (.error stop after)

end Footing

/-- Computations that come to an end in the same way. -/
def InStep (footing : Footing) {α β : Type} (related : α → β → Prop)
    (escapes : Stop → Machine → EStateM.Result Stop Machine α → Prop) (first : Run α) (second : Run β) : Prop :=
  ∀ machine, footing.Holds machine → footing.Ends related escapes (first machine) (second (footing.pair machine))

/-- A step that depends neither on the number of barriers nor on the limit for nested calls, and that comes to values of
some kind. -/
abbrev Indifferent (footing : Footing) {α : Type} (holds : α → Prop) (action : Run α) : Prop :=
  InStep footing (fun value value' => value' = value ∧ holds value) (fun _ _ _ => False) action action

variable {footing : Footing} {α β γ δ : Type}

namespace InStep

variable {related : α → β → Prop} {escapes : Stop → Machine → EStateM.Result Stop Machine α → Prop} {first : Run α}
  {second : Run β}

theorem imp {weaker : α → β → Prop} (inStep : InStep footing related escapes first second)
    (implies : ∀ value value', related value value' → weaker value value') :
    InStep footing weaker escapes first second := by
  intro machine holds
  have ends := inStep machine holds
  generalize first machine = result at ends ⊢
  generalize second (footing.pair machine) = result' at ends ⊢
  cases ends with
  | ok values holds => exact .ok (implies _ _ values) holds
  | stop stop => exact .stop stop
  | excused excused => exact .excused excused
  | escaped escape => exact .escaped escape

theorem pure {value : α} {value' : β} (values : related value value') :
    InStep footing related escapes (Pure.pure value) (Pure.pure value') := fun _ holds => .ok values holds

theorem throw (stop : Stop) :
    InStep footing related escapes (MonadExcept.throw stop : Run α) (MonadExcept.throw stop : Run β) :=
  fun _ _ => .stop stop

theorem fail (error : RunError) :
    InStep footing related escapes (Run.fail error : Run α) (Run.fail error : Run β) := throw _

theorem excused (excused : footing.excuses .exhausted) (second : Run β) :
    InStep footing related escapes (MonadExcept.throw .exhausted : Run α) second := fun _ _ => .excused excused

variable {results : γ → δ → Prop} {escapes' : Stop → Machine → EStateM.Result Stop Machine γ → Prop}

theorem bind {action : Run α} {action' : Run β} {rest : α → Run γ} {rest' : β → Run δ}
    (begins : InStep footing related escapes action action')
    (goesOn : ∀ value value', related value value' → InStep footing results escapes' (rest value) (rest' value'))
    (passes : ∀ {stop after value between}, escapes stop after (.ok value between) →
      escapes' stop after (rest value between))
    (stops : ∀ {stop after error between}, escapes stop after (.error error between) →
      escapes' stop after (.error error between)) :
    InStep footing results escapes' (action >>= rest) (action' >>= rest') := by
  intro machine holds
  have start := begins machine holds
  simp only [Bind.bind, EStateM.bind]
  generalize action machine = result at start
  generalize action' (footing.pair machine) = result' at start
  cases start with
  | @ok value value' between values holds' => exact goesOn value value' values between holds'
  | stop stop => exact .stop stop
  | excused excused => exact .excused excused
  | escaped escape =>
    cases result with
    | ok value between => exact .escaped (passes escape)
    | error error between => exact .escaped (stops escape)

/-- The same first step is done on both sides. -/
theorem andThen {holds : α → Prop} {action action' : Run α} {rest : α → Run γ} {rest' : α → Run δ}
    (begins : InStep footing (fun value value' => value' = value ∧ holds value) (fun _ _ _ => False) action action')
    (goesOn : ∀ value, holds value → InStep footing results escapes' (rest value) (rest' value)) :
    InStep footing results escapes' (action >>= rest) (action' >>= rest') := by
  refine begins.bind (fun value value' same => ?_) False.elim False.elim
  obtain ⟨rfl, known⟩ := same
  exact goesOn value' known

theorem get {rest : Machine → Run γ} {rest' : Machine → Run δ}
    (goesOn : ∀ machine, footing.Holds machine →
      InStep footing results escapes' (rest machine) (rest' (footing.pair machine))) :
    InStep footing results escapes' (MonadState.get >>= rest) (MonadState.get >>= rest') :=
  fun machine holds => goesOn machine holds machine holds

/-- Both machines set up a barrier. -/
theorem newBarrier {rest : Nat → Run γ} {rest' : Nat → Run δ}
    (goesOn : ∀ inner, InStep footing results escapes' (rest inner) (rest' (inner + footing.lead))) :
    InStep footing results escapes' (Run.newBarrier >>= rest) (Run.newBarrier >>= rest') := by
  intro machine holds
  have ahead : (footing.pair machine).barriers + 1 = machine.barriers + 1 + footing.lead := Nat.add_right_comm _ _ _
  rw [Run.newBarrier_bind, Run.newBarrier_bind, ahead]
  exact goesOn (machine.barriers + 1) { machine with barriers := machine.barriers + 1 }
    (holds.step rfl rfl (List.prefix_refl _) holds.confined)

end InStep

/-! ## Steps of runs -/

namespace Indifferent

variable {holds : α → Prop}

theorem read (view : Machine → α) (same : ∀ machine, view (footing.pair machine) = view machine)
    (known : ∀ machine, footing.Holds machine → holds (view machine)) :
    Indifferent footing holds (do return view (← MonadState.get) : Run α) :=
  InStep.get fun machine holds => .pure ⟨same machine, known machine holds⟩

/-- A step that changes nothing but bindings, output and warnings. -/
theorem modifyGet {change : Machine → α × Machine} (settings : ∀ machine, (change machine).2.settings = machine.settings)
    (program : ∀ machine, (change machine).2.program = machine.program)
    (procedures : ∀ machine, (change machine).2.procedures = machine.procedures)
    (same : ∀ machine, change (footing.pair machine) = ((change machine).1, footing.pair (change machine).2))
    (known : ∀ machine, footing.Holds machine →
      holds (change machine).1 ∧ footing.region.Confines (change machine).2.bindings) :
    Indifferent footing holds (MonadStateOf.modifyGet change : Run α) := by
  intro machine before
  have second : (MonadStateOf.modifyGet change : Run α) (footing.pair machine) =
      .ok (change machine).1 (footing.pair (change machine).2) := by
    show EStateM.modifyGet change (footing.pair machine) = _
    simp only [EStateM.modifyGet, same machine]
  obtain ⟨result, confined⟩ := known machine before
  have grown : machine.procedures.entries <+: (change machine).2.procedures.entries := by simp [procedures]
  rw [second]
  exact .ok ⟨rfl, result⟩ (before.step (settings machine) (program machine) grown confined)

theorem walk {term : Term} (covers : footing.region.Covers term) :
    Indifferent footing footing.region.Covers (Run.walk term) :=
  read (fun machine => machine.bindings.walk term) (fun _ => rfl) fun _ holds => holds.confined.covers_walk covers

theorem mark : Indifferent footing (footing.region.limit ≤ ·.cells) Run.mark :=
  read (fun machine => machine.bindings.mark) (fun _ => rfl) fun _ holds => holds.confined.size

theorem undoTo {mark : Mark} (room : footing.region.limit ≤ mark.cells) :
    Indifferent footing (fun _ => True) (Run.undoTo mark) :=
  modifyGet (fun _ => rfl) (fun _ => rfl) (fun _ => rfl) (fun _ => rfl) fun _ holds =>
    ⟨trivial, holds.confined.undoTo room⟩

theorem take (count : Nat) : Indifferent footing (footing.region.limit ≤ ·) (Run.take count) :=
  modifyGet (fun _ => rfl) (fun _ => rfl) (fun _ => rfl) (fun _ => rfl) fun _ holds =>
    ⟨holds.confined.size, holds.confined.reserve _⟩

theorem emit (text : String) : Indifferent footing (fun _ => True) (Run.emit text) :=
  modifyGet (fun _ => rfl) (fun _ => rfl) (fun _ => rfl) (fun _ => rfl) fun _ holds => ⟨trivial, holds.confined⟩

theorem report (names : List (String × Nat)) (diagnostics : List Diagnostic) :
    Indifferent footing (fun _ => True) (Run.report names diagnostics) :=
  modifyGet (fun _ => rfl) (fun _ => rfl) (fun _ => rfl) (fun _ => rfl) fun _ holds => ⟨trivial, holds.confined⟩

theorem copyClause (clause : Clause) :
    Indifferent footing (fun copy => footing.region.CoversAll copy.1 ∧ footing.region.Covers copy.2)
      (Run.copyClause clause) :=
  (take clause.width).andThen fun _ room => .pure ⟨rfl, Region.coversAll_copy room _, Region.covers_copy room _⟩

theorem copyTemplate (template : Template) :
    Indifferent footing footing.region.CoversAll (Run.copyTemplate template) :=
  (take template.width).andThen fun _ room => .pure ⟨rfl, Region.coversAll_copy room _⟩

theorem copyStep (step : LoopStep) :
    Indifferent footing (fun copy => footing.region.CoversAll copy.1 ∧ footing.region.Covers copy.2.1 ∧
      footing.region.CoversAll copy.2.2) (Machine.copyStep step) :=
  (take step.width).andThen fun _ room =>
    .pure ⟨rfl, Region.coversAll_copy room _, Region.covers_copy room _, Region.coversAll_copy room _⟩

theorem copyAll (forms : List NormalForm) :
    Indifferent footing footing.region.CoversAll (Machine.copyAll forms) := by
  induction forms with
  | nil => exact .pure ⟨rfl, Region.coversAll_nil⟩
  | cons form forms ih =>
    exact (take form.width).andThen fun _ room => ih.andThen fun _ others =>
      .pure ⟨rfl, Region.coversAll_cons.mpr ⟨Region.covers_copy room _, others⟩⟩

theorem checkEnds (terms : List Term) : Indifferent footing (fun _ => True) (Run.checkEnds terms) := by
  refine InStep.get fun machine _ => ?_
  have bindings : (footing.pair machine).bindings = machine.bindings := rfl
  rw [bindings]
  split
  · exact .pure ⟨rfl, trivial⟩
  · exact .throw _

theorem resolve (term : Term) : Indifferent footing (fun _ => True) (Run.resolve term) :=
  (checkEnds [term]).andThen fun _ _ =>
    read (fun machine => machine.bindings.resolve term) (fun _ => rfl) fun _ _ => trivial

theorem supplied {ε : Type} {wrap : ε → RunError} {action : Supplied ε α}
    (results : ∀ next value after, footing.region.limit ≤ next → action next = .ok value after → holds value) :
    Indifferent footing holds (Run.supplied wrap action) := by
  intro machine known
  have bindings : (footing.pair machine).bindings = machine.bindings := rfl
  simp only [Run.supplied, bindings]
  cases taken : action machine.bindings.size with
  | error error next => exact .stop _
  | ok value next =>
    exact .ok ⟨rfl, results _ value next known.confined.size taken⟩
      (known.step rfl rfl (List.prefix_refl _) (known.confined.reserve _))

/-- Compiling only adds procedures. -/
theorem compiling {action : Compiler α} (adds : Compiler.Adds action)
    (results : ∀ before value after, footing.region.limit ≤ before.next → action before = .ok value after → holds value) :
    Indifferent footing holds (Run.compiling action) := by
  intro machine known
  have grown := adds ⟨machine.bindings.size, machine.procedures⟩
  have bindings : (footing.pair machine).bindings = machine.bindings := rfl
  have procedures : (footing.pair machine).procedures = machine.procedures := rfl
  simp only [Run.compiling, bindings, procedures]
  unfold Compiler.storeAfter at grown
  cases ended : action ⟨machine.bindings.size, machine.procedures⟩ with
  | error error after => exact .stop _
  | ok value after =>
    rw [ended] at grown
    exact .ok ⟨rfl, results _ value after known.confined.size ended⟩
      (known.step rfl rfl grown (known.confined.reserve _))

/-- Calls that are not nested too deeply for the first machine are not for the second one. -/
theorem checkDepth (depth : Nat) : Indifferent footing (fun _ => True) (Run.checkDepth depth) := by
  intro machine holds
  by_cases admits : machine.Admits depth
  · have admits' : (footing.pair machine).Admits depth := holds.admits_pair admits
    rw [admits.checkDepth, admits'.checkDepth]
    exact .ok ⟨rfl, trivial⟩ holds
  · obtain ⟨limit, limited, deep⟩ : ∃ limit, machine.settings.depthLimit = some limit ∧ limit ≤ depth := by
      simpa [Machine.Admits] using admits
    rw [Machine.checkDepth_of_limit_le limited deep]
    rcases footing.looser machine holds.known with same | ⟨excuse, _⟩
    · have limited' : (footing.pair machine).settings.depthLimit = some limit := same.trans limited
      rw [Machine.checkDepth_of_limit_le limited' deep]
      exact .stop _
    · exact .excused (excuse limit)

/-- Unification with more fuel does the same, if it comes to an end. -/
theorem unifyAll {fuel fuel' : Nat} (fuels : footing.Fuels fuel fuel') {lefts rights : List Term}
    (coversLefts : footing.region.CoversAll lefts) (coversRights : footing.region.CoversAll rights) :
    InStep footing (fun value value' => value' = value ∧ True) (fun _ _ _ => False) (Run.unifyAll fuel lefts rights)
      (Run.unifyAll fuel' lefts rights) := by
  intro machine holds
  have bindings : (footing.pair machine).bindings = machine.bindings := rfl
  have confined := holds.confined.unifyAll fuel coversLefts coversRights
  simp only [Run.unifyAll, bindings]
  cases result : (machine.bindings.unifyAll fuel lefts rights).1 with
  | none =>
    rcases fuels with rfl | ⟨excuse, le⟩
    · rw [result]
      exact .stop _
    · exact .excused excuse
  | some unified =>
    have same : machine.bindings.unifyAll fuel' lefts rights = machine.bindings.unifyAll fuel lefts rights := by
      rcases fuels with rfl | ⟨_, le⟩
      · rfl
      · exact Bindings.unifyAll_mono le (by simp [result])
    rw [same, result]
    exact .ok ⟨rfl, trivial⟩ (holds.step rfl rfl (List.prefix_refl _) confined)

end Indifferent

/-! ## Signals -/

/-- Outcomes of two searches that agree: what was collected is related, cuts correspond to each other, and other signals
than a request for more are allowed. -/
structure OutcomesAgree (lead : Nat) {σ τ : Type} (related : σ → τ → Prop) (allowed : Signal → σ → τ → Prop)
    (outcome : Outcome σ) (outcome' : Outcome τ) : Prop where
  /-- The signals correspond to each other. -/
  signals : outcome'.1 = outcome.1.ahead lead
  /-- What was collected is related. -/
  values : related outcome.2 outcome'.2
  /-- The search may be ended so. -/
  allows : outcome.1 = .more ∨ allowed outcome.1 outcome.2 outcome'.2

/-- A cut to a barrier is allowed besides. -/
def Cutting {σ τ : Type} (barrier : Nat) (allowed : Signal → σ → τ → Prop) (signal : Signal) (acc : σ) (acc' : τ) : Prop :=
  signal = .cut barrier ∨ allowed signal acc acc'

namespace OutcomesAgree

variable {lead : Nat} {σ τ : Type} {related : σ → τ → Prop} {allowed : Signal → σ → τ → Prop} {outcome : Outcome σ}
  {outcome' : Outcome τ}

theorem more {acc : σ} {acc' : τ} (values : related acc acc') :
    OutcomesAgree lead related allowed (.more, acc) (.more, acc') := ⟨rfl, values, .inl rfl⟩

/-- Outside of a barrier, cuts to it are requests for more. -/
theorem beyond {inner : Nat} (agree : OutcomesAgree lead related (Cutting inner allowed) outcome outcome') :
    OutcomesAgree lead related allowed (outcome.1.beyond inner, outcome.2)
      (outcome'.1.beyond (inner + lead), outcome'.2) := by
  obtain ⟨signals, values, allows⟩ := agree
  refine ⟨by rw [signals, Signal.beyond_ahead], values, ?_⟩
  obtain ⟨signal, acc⟩ := outcome
  rcases allows with rfl | rfl | allows
  · exact .inl rfl
  · exact .inl (if_pos rfl)
  · cases signal with
    | more => exact .inl rfl
    | halt => exact .inr allows
    | cut target =>
      by_cases own : target = inner
      · exact .inl (if_pos own)
      · have kept : (Signal.cut target).beyond inner = .cut target := if_neg own
        rw [kept]
        exact .inr allows

theorem outward {barrier : Nat} (agree : OutcomesAgree lead related allowed outcome outcome') :
    OutcomesAgree lead related (Cutting barrier allowed) outcome outcome' :=
  { agree with allows := agree.allows.imp_right .inr }

theorem inward {barrier : Nat} (agree : OutcomesAgree lead related (Cutting barrier (Cutting barrier allowed)) outcome outcome') :
    OutcomesAgree lead related (Cutting barrier allowed) outcome outcome' :=
  { agree with allows := agree.allows.imp_right fun allows => allows.elim .inl id }

/-- A cut ends the search where otherwise more would be asked for. -/
theorem orCut (agree : OutcomesAgree lead related allowed outcome outcome') (barrier : Nat) :
    OutcomesAgree lead related (Cutting barrier allowed) (outcome.1.orCut barrier, outcome.2)
      (outcome'.1.orCut (barrier + lead), outcome'.2) := by
  obtain ⟨signals, values, allows⟩ := agree
  refine ⟨by rw [signals, Signal.orCut_ahead], values, .inr ?_⟩
  obtain ⟨signal, acc⟩ := outcome
  rcases allows with rfl | allows
  · exact .inl rfl
  · cases signal with
    | more => exact .inl rfl
    | halt => exact .inr allows
    | cut target => exact .inr allows

end OutcomesAgree

/-! ## Escapes -/

/-- What is left to be said about the first search where the second one was stopped by its continuation. -/
structure Escape (σ : Type) where
  /-- Whether the first search gives up at the same solution. -/
  final : Bool
  /-- How the stop and the last state of the second search are related to what the first one has collected and its
  state. -/
  holds : Stop → Machine → σ → Machine → Prop
  /-- The bindings do not matter. -/
  blind : ∀ {stop last acc machine} (bindings : Bindings), holds stop last acc machine →
    holds stop last acc { machine with bindings := bindings }
  /-- If the first search goes on, its state does not matter. -/
  free : final = false → ∀ {stop last acc machine} (other : Machine), holds stop last acc machine →
    holds stop last acc other

/-- Computations that keep a property of what is collected. -/
def Preserves {σ : Type} (holds : σ → Prop) (action : Run (Outcome σ)) : Prop :=
  ∀ machine outcome after, action machine = .ok outcome after → holds outcome.2

/-- Solvers that keep a property of what is collected if their continuations do. -/
def SolverPreserves (solver : Solver) : Prop :=
  ∀ {σ : Type} {holds : σ → Prop} (goal : Term) (depth barrier : Nat) {k : Continuation σ},
    (∀ acc, holds acc → Preserves holds (k acc)) → ∀ acc, holds acc → Preserves holds (solver σ goal depth barrier k acc)

namespace Escape

variable {σ ρ : Type} (escape : Escape σ) {stop : Stop} {last : Machine}

/-- No search is stopped by its continuation. -/
def never : Escape σ := ⟨true, fun _ _ _ _ => False, fun _ escaped => escaped, fun _ _ _ _ _ _ escaped => escaped⟩

/-- What is collected besides does not matter. -/
def via (view : ρ → σ) : Escape ρ :=
  ⟨escape.final, fun stop last acc => escape.holds stop last (view acc), escape.blind, fun going => escape.free going⟩

/-- What is known at the end of the first search. -/
def Met (stop : Stop) (last : Machine) : EStateM.Result Stop Machine (Outcome σ) → Prop
  | .ok outcome after => (escape.final = true → outcome.1 = .halt) ∧ escape.holds stop last outcome.2 after
  | .error _ _ => escape.final = false

/-- A continuation with which the first search may go on. -/
def Kept (k : Continuation σ) : Prop :=
  escape.final = false → ∀ stop last machine acc, escape.holds stop last acc machine →
    Preserves (fun acc => escape.holds stop last acc machine) (k acc)

variable {escape}

/-- A search that gave up does not go on, and other signals do not matter. -/
theorem Met.tail {outcome : Outcome σ} {after : Machine} (met : escape.Met stop last (.ok outcome after))
    {signal : Signal} (same : outcome.1 = .halt → signal = .halt) (bindings : Bindings) :
    escape.Met stop last (.ok (signal, outcome.2) { after with bindings := bindings }) :=
  ⟨fun final => same (met.1 final), escape.blind bindings met.2⟩

/-- Only a search that did not give up goes on. -/
theorem Met.resume {acc : σ} {after : Machine} (met : escape.Met stop last (.ok (.more, acc) after))
    {action : Run (Outcome σ)}
    (keeps : escape.final = false → Preserves (fun acc => escape.holds stop last acc after) action) (other : Machine) :
    escape.Met stop last (action other) := by
  have going : escape.final = false := by
    cases final : escape.final with
    | false => rfl
    | true => exact absurd (met.1 final) (by simp)
  cases ended : action other with
  | error error between => exact going
  | ok outcome between =>
    refine ⟨fun final => absurd (going.symm.trans final) (by simp), ?_⟩
    exact escape.free going between (keeps going other outcome between ended)

end Escape

namespace Preserves

variable {σ : Type} {holds : σ → Prop}

theorem pure {signal : Signal} {acc : σ} (known : holds acc) : Preserves holds (Pure.pure (signal, acc)) := by
  rintro machine _ _ ⟨rfl, rfl⟩
  exact known

theorem throw (stop : Stop) : Preserves holds (MonadExcept.throw stop) := fun _ _ _ impossible => by contradiction

theorem andThen (action : Run α) {rest : α → Run (Outcome σ)} (keeps : ∀ value, Preserves holds (rest value)) :
    Preserves holds (action >>= rest) := by
  intro machine outcome after ended
  obtain ⟨value, between, _, ended⟩ := exists_of_bind ended
  exact keeps value between outcome after ended

theorem bind {ρ : Type} {holds' : ρ → Prop} {action : Run (Outcome ρ)} {rest : Outcome ρ → Run (Outcome σ)}
    (first : Preserves holds' action) (keeps : ∀ outcome, holds' outcome.2 → Preserves holds (rest outcome)) :
    Preserves holds (action >>= rest) := by
  intro machine outcome after ended
  obtain ⟨value, between, begun, ended⟩ := exists_of_bind ended
  exact keeps value (first machine value between begun) between outcome after ended

variable {solver : Solver} (solves : SolverPreserves solver) {k : Continuation σ}
  (continues : ∀ acc, holds acc → Preserves holds (k acc)) (fuel : Nat)

include solves continues in
theorem tryClauses (args : List Term) (depth inner : Nat) (clauses : List Clause) (acc : σ) (known : holds acc) :
    Preserves holds (tryClauses fuel solver args depth inner k clauses acc) := by
  induction clauses generalizing acc with
  | nil => exact pure known
  | cons clause clauses ih =>
    refine andThen _ fun start => andThen _ fun copy => andThen _ fun unified => ?_
    cases unified
    case' true => refine bind (solves copy.2 (depth + 1) inner continues acc known) ?_
    case' false => refine bind (pure known) ?_
    all_goals
      rintro ⟨signal, acc⟩ found
      refine andThen _ fun _ => ?_
      cases signal with
      | more => exact ih acc found
      | halt => exact pure found
      | cut target => exact pure found

include solves continues in
theorem iterate (plan : LoopPlan) (args : List Term) (depth : Nat) (acc : σ) (known : holds acc) :
    Preserves holds (iterate solver plan k fuel args depth acc) := by
  induction fuel generalizing args depth acc with
  | zero => exact throw _
  | succ fuel ih =>
    refine andThen _ fun _ => andThen _ fun start => andThen _ fun terminal => andThen _ fun ended => ?_
    cases ended with
    | true => exact bind (continues acc known) fun _ known => andThen _ fun _ => pure known
    | false =>
      refine andThen _ fun copy => andThen _ fun inner => andThen _ fun begun => ?_
      cases begun with
      | true =>
        exact bind (solves copy.2.1 (depth + 1) inner (ih copy.2.2 (depth + 1)) acc known) fun _ known =>
          andThen _ fun _ => pure known
      | false => exact bind (pure known) fun _ known => andThen _ fun _ => pure known

end Preserves

/-! ## Searches -/

/-- Searches that come to an end in the same way. -/
abbrev Tallies (footing : Footing) {σ τ : Type} (related : σ → τ → Prop) (allowed : Signal → σ → τ → Prop)
    (escape : Escape σ) : Run (Outcome σ) → Run (Outcome τ) → Prop :=
  InStep footing (OutcomesAgree footing.lead related allowed) escape.Met

/-- Continuations that ask for the same after each solution. -/
structure ContinuesInStep (footing : Footing) {σ τ : Type} (related : σ → τ → Prop) (allowed : Signal → σ → τ → Prop)
    (escape : Escape σ) (k : Continuation σ) (k' : Continuation τ) : Prop where
  /-- The first search may go on where the second one was stopped. -/
  kept : escape.Kept k
  /-- They ask for the same. -/
  inStep : ∀ {acc acc'}, related acc acc' → Tallies footing related allowed escape (k acc) (k' acc')

/-- Solvers that come to the same solutions. Besides what continuations may do, they may cut to their barriers. -/
def SolversInStep (footing : Footing) (solver solver' : Solver) : Prop :=
  ∀ {σ τ : Type} {related : σ → τ → Prop} {allowed : Signal → σ → τ → Prop} {escape : Escape σ} {goal : Term}
    (depth barrier : Nat) {k : Continuation σ} {k' : Continuation τ}, footing.region.Covers goal →
    ContinuesInStep footing related allowed escape k k' → ∀ acc acc', related acc acc' →
      Tallies footing related (Cutting barrier allowed) escape (solver σ goal depth barrier k acc)
        (solver' τ goal depth (barrier + footing.lead) k' acc')

section

variable {σ τ : Type} {related : σ → τ → Prop} {allowed : Signal → σ → τ → Prop} {escape : Escape σ}
  {k : Continuation σ} {k' : Continuation τ}

theorem Escape.kept_never (k : Continuation σ) : Escape.never.Kept k := fun going => by contradiction

theorem Escape.not_met_never {stop : Stop} {last : Machine} :
    ∀ {result : EStateM.Result Stop Machine (Outcome σ)}, ¬ Escape.never.Met stop last result
  | .ok _ _ => And.right
  | .error _ _ => Bool.noConfusion

namespace InStep

/-- A search ends. -/
theorem more {acc : σ} {acc' : τ} (values : related acc acc') :
    Tallies footing related allowed escape (Pure.pure (.more, acc)) (Pure.pure (.more, acc')) := .pure (.more values)

variable {action : Run (Outcome σ)} {allowed' : Signal → σ → τ → Prop} {action' : Run (Outcome τ)} {goal : Term}
  {args : List Term}

/-- What comes after a search only changes signals and bindings, and a search that was given up stays so. -/
theorem finish (begins : Tallies footing related allowed escape action action') (signal signal' : Signal → Signal)
    (halting : signal .halt = .halt)
    (agrees : ∀ {outcome outcome'}, OutcomesAgree footing.lead related allowed outcome outcome' →
      OutcomesAgree footing.lead related allowed' (signal outcome.1, outcome.2) (signal' outcome'.1, outcome'.2)) :
    Tallies footing related allowed' escape
      (do
        let outcome ← action
        return (signal outcome.1, outcome.2))
      (do
        let outcome ← action'
        return (signal' outcome.1, outcome.2)) := by
  refine begins.bind (fun _ _ values => .pure (agrees values)) (fun {stop last outcome between} met => ?_) id
  exact met.tail (fun same => by rw [same, halting]) between.bindings

/-- The same, with going back to a mark first. -/
theorem finishAt (begins : Tallies footing related allowed escape action action') {start : Mark}
    (room : footing.region.limit ≤ start.cells) (signal signal' : Signal → Signal) (halting : signal .halt = .halt)
    (agrees : ∀ {outcome outcome'}, OutcomesAgree footing.lead related allowed outcome outcome' →
      OutcomesAgree footing.lead related allowed' (signal outcome.1, outcome.2) (signal' outcome'.1, outcome'.2)) :
    Tallies footing related allowed' escape
      (do
        let outcome ← action
        Run.undoTo start
        return (signal outcome.1, outcome.2))
      (do
        let outcome ← action'
        Run.undoTo start
        return (signal' outcome.1, outcome.2)) := by
  refine begins.bind (fun _ _ values => (Indifferent.undoTo room).andThen fun _ _ => .pure (agrees values))
    (fun {stop last outcome between} met => ?_) id
  exact met.tail (fun same => by rw [same, halting]) (between.bindings.undoTo start)

variable (continues : ContinuesInStep footing related allowed escape k k') {fuel fuel' : Nat}
  (fuels : footing.Fuels fuel fuel') {solver solver' : Solver} (solves : SolversInStep footing solver solver')
  (keeps : SolverPreserves solver) {acc : σ} {acc' : τ} (values : related acc acc')

include solves keeps continues in
/-- Searching for a goal is a continuation in its turn. -/
theorem solving (covers : footing.region.Covers goal) (depth barrier : Nat) :
    ContinuesInStep footing related (Cutting barrier allowed) escape (solver σ goal depth barrier k)
      (solver' τ goal depth (barrier + footing.lead) k') where
  kept going stop last machine := keeps goal depth barrier (continues.kept going stop last machine)
  inStep values := solves depth barrier covers continues _ _ values

include continues fuels values in
theorem equate {lefts rights : List Term} (coversLefts : footing.region.CoversAll lefts)
    (coversRights : footing.region.CoversAll rights) :
    Tallies footing related allowed escape (equate fuel lefts rights k acc) (equate fuel' lefts rights k' acc') := by
  refine Indifferent.mark.andThen fun start room =>
    (Indifferent.unifyAll fuels coversLefts coversRights).andThen fun unified _ => ?_
  cases unified with
  | true => exact finishAt (continues.inStep values) room id id rfl id
  | false => exact more values

include continues fuels values in
theorem perform {effect : Effect} (covers : footing.region.CoversEffect effect) :
    Tallies footing related allowed escape (perform fuel effect k acc) (perform fuel' effect k' acc') := by
  cases effect with
  | refuse => exact more values
  | accept => exact continues.inStep values
  | equate taken lefts rights =>
    exact (Indifferent.take taken).andThen fun _ _ => equate continues fuels values covers.1 covers.2
  | write text => exact (Indifferent.emit text).andThen fun _ _ => continues.inStep values

include continues solves keeps values in
theorem solveEither {left right : Term} (coversLeft : footing.region.Covers left)
    (coversRight : footing.region.Covers right) (depth barrier : Nat) :
    Tallies footing related (Cutting barrier allowed) escape (solveEither solver left right depth barrier k acc)
      (solveEither solver' left right depth (barrier + footing.lead) k' acc') := by
  have rights := solving continues solves keeps coversRight depth barrier
  refine (solves depth barrier coversLeft continues acc acc' values).bind (fun outcome outcome' agree => ?_)
    (fun {stop last outcome between} met => ?_) id
  · obtain ⟨signal, acc⟩ := outcome
    obtain ⟨signal', acc'⟩ := outcome'
    obtain rfl : signal' = signal.ahead footing.lead := agree.signals
    cases signal with
    | more => exact rights.inStep agree.values
    | halt => exact .pure agree
    | cut target => exact .pure agree
  · obtain ⟨signal, acc⟩ := outcome
    cases signal with
    | more => exact met.resume (fun going => rights.kept going stop last between acc met.2) between
    | halt => exact met
    | cut target => exact met

include continues solves keeps values in
/-- The condition is left with a cut to its barrier after its first solution. -/
theorem solveIf {condition consequence : Term} {alternative : Option Term}
    (coversCondition : footing.region.Covers condition) (coversConsequence : footing.region.Covers consequence)
    (coversAlternative : ∀ goal ∈ alternative, footing.region.Covers goal) (depth barrier : Nat) :
    Tallies footing related (Cutting barrier allowed) escape
      (solveIf solver condition consequence alternative depth barrier k acc)
      (solveIf solver' condition consequence alternative depth (barrier + footing.lead) k' acc') := by
  refine newBarrier fun inner => ?_
  have consequences := solving continues solves keeps coversConsequence depth barrier
  let both (pair : Bool × σ) (pair' : Bool × τ) : Prop := pair'.1 = pair.1 ∧ related pair.2 pair'.2
  let lifted (signal : Signal) (pair : Bool × σ) (pair' : Bool × τ) : Prop :=
    Cutting barrier allowed signal pair.2 pair'.2
  have commits : ContinuesInStep footing both (Cutting inner lifted) (escape.via Prod.snd)
      (fun pair => do
        let outcome ← solver σ consequence depth barrier k pair.2
        return (outcome.1.orCut inner, (true, outcome.2)))
      (fun pair => do
        let outcome ← solver' τ consequence depth (barrier + footing.lead) k' pair.2
        return (outcome.1.orCut (inner + footing.lead), (true, outcome.2))) := by
    refine ⟨fun going stop last machine pair known => ?_, fun {pair pair'} values => ?_⟩
    · exact .bind (consequences.kept going stop last machine pair.2 known) fun _ known => .pure known
    · refine (consequences.inStep values.2).bind (fun outcome outcome' agree => InStep.pure ?_)
        (fun {stop last outcome between} met => ⟨fun final => by rw [met.1 final]; rfl, met.2⟩) id
      have agree' : OutcomesAgree footing.lead both lifted (outcome.1, (true, outcome.2)) (outcome'.1, (true, outcome'.2)) :=
        ⟨agree.signals, ⟨rfl, agree.values⟩, agree.allows⟩
      exact agree'.orCut inner
  refine (solves depth inner coversCondition commits (false, acc) (false, acc') ⟨rfl, values⟩).bind ?_ ?_ id
  · rintro ⟨signal, found, acc⟩ ⟨signal', found', acc'⟩ agree
    have beyond := (agree.inward).beyond
    obtain rfl : signal' = signal.ahead footing.lead := agree.signals
    obtain ⟨same, values⟩ : found' = found ∧ related acc acc' := agree.values
    subst same
    cases signal with
    | more =>
      cases found' with
      | true => exact more values
      | false =>
        cases alternative with
        | none => exact more values
        | some alternative =>
          exact solves depth barrier (coversAlternative alternative rfl) continues acc acc' values
    | halt => exact InStep.pure ⟨beyond.signals, values, beyond.allows⟩
    | cut target => exact InStep.pure ⟨beyond.signals, values, beyond.allows⟩
  · rintro stop last ⟨signal, found, acc⟩ between met
    cases signal with
    | more =>
      cases found with
      | true => exact met
      | false =>
        cases alternative with
        | none => exact met
        | some alternative =>
          have goesOn := (solving continues solves keeps (coversAlternative alternative rfl) depth barrier).kept
          have outer : escape.Met stop last (.ok (.more, acc) between) := met
          exact outer.resume (fun going => goesOn going stop last between acc met.2) between
    | halt => exact met
    | cut target => exact Escape.Met.tail met (fun same => by contradiction) between.bindings

include continues solves values in
theorem solveUnless {inner : Term} (covers : footing.region.Covers inner) (depth : Nat) :
    Tallies footing related allowed escape (solveUnless solver inner depth k acc)
      (solveUnless solver' inner depth k' acc') := by
  refine newBarrier fun inside => ?_
  have stops : ContinuesInStep footing (fun _ _ => True) (fun signal _ _ => signal = .cut inside) Escape.never
      (fun _ : Unit => return (.cut inside, ())) (fun _ : Unit => return (.cut (inside + footing.lead), ())) :=
    ⟨Escape.kept_never _, fun _ => InStep.pure ⟨rfl, trivial, .inr rfl⟩⟩
  refine (solves depth inside covers stops () () trivial).bind (fun outcome outcome' agree => ?_)
    (fun met => (Escape.not_met_never met).elim) fun met => (Escape.not_met_never met).elim
  obtain ⟨signal, _⟩ := outcome
  obtain ⟨signal', _⟩ := outcome'
  obtain rfl : signal' = signal.ahead footing.lead := agree.signals
  rcases agree.allows with (rfl : signal = _) | (rfl : signal = _) | (rfl : signal = _)
  · exact continues.inStep values
  · simp only [Signal.ahead, Signal.beyond, if_true]
    exact more values
  · simp only [Signal.ahead, Signal.beyond, if_true]
    exact more values

include continues solves values in
theorem solveConfined (covers : footing.region.Covers goal) (depth : Nat) :
    Tallies footing related allowed escape (solveConfined solver goal depth k acc)
      (solveConfined solver' goal depth k' acc') :=
  newBarrier fun inner => finish (solves depth inner covers continues acc acc' values) (Signal.beyond inner)
    (Signal.beyond (inner + footing.lead)) rfl .beyond

include continues fuels solves values in
/-- What is collected is copied with new variables, so it belongs to the region whatever it was. -/
theorem solveCollect (template : Term) {result : Term} (coversGoal : footing.region.Covers goal)
    (coversResult : footing.region.Covers result) (depth : Nat) :
    Tallies footing related allowed escape (solveCollect fuel solver template goal result depth k acc)
      (solveCollect fuel' solver' template goal result depth k' acc') := by
  refine newBarrier fun inner => ?_
  have notes : ContinuesInStep footing Eq (fun _ _ _ => False) Escape.never
      (fun found => do return (.more, (← Run.resolve template).normalize :: found) : Continuation (List NormalForm))
      (fun found => do return (.more, (← Run.resolve template).normalize :: found)) := by
    refine ⟨Escape.kept_never _, fun {found found'} same => ?_⟩
    subst same
    exact (Indifferent.resolve template).andThen fun _ _ => more rfl
  refine (solves depth inner coversGoal notes [] [] rfl).bind (fun outcome outcome' agree => ?_)
    (fun met => (Escape.not_met_never met).elim) fun met => (Escape.not_met_never met).elim
  obtain ⟨signal', found⟩ := outcome'
  obtain rfl : outcome.2 = found := agree.values
  exact (Indifferent.copyAll outcome.2.reverse).andThen fun items coversItems =>
    equate continues fuels values (by simpa using coversResult) (by simpa using Region.covers_list.mpr coversItems)

include continues fuels solves keeps in
theorem tryClauses (covers : footing.region.CoversAll args) (depth inner : Nat) (clauses : List Clause) (acc : σ)
    (acc' : τ) (values : related acc acc') :
    Tallies footing related allowed escape (tryClauses fuel solver args depth inner k clauses acc)
      (tryClauses fuel' solver' args depth (inner + footing.lead) k' clauses acc') := by
  induction clauses generalizing acc acc' with
  | nil => exact more values
  | cons clause clauses ih =>
    refine Indifferent.mark.andThen fun start room => (Indifferent.copyClause clause).andThen fun copy coversCopy =>
      (Indifferent.unifyAll fuels coversCopy.1 covers).andThen fun unified _ => ?_
    cases unified with
    | false => exact (Indifferent.undoTo room).andThen fun _ _ => ih acc acc' values
    | true =>
      refine (solves (depth + 1) inner coversCopy.2 continues acc acc' values).bind (fun outcome outcome' agree => ?_)
        (fun {stop last outcome between} met => ?_) id
      · refine (Indifferent.undoTo room).andThen fun _ _ => ?_
        have beyond := agree.beyond
        obtain ⟨signal, acc⟩ := outcome
        obtain ⟨signal', acc'⟩ := outcome'
        obtain rfl : signal' = signal.ahead footing.lead := agree.signals
        cases signal with
        | more => exact ih acc acc' agree.values
        | halt => exact InStep.pure beyond
        | cut target => exact InStep.pure beyond
      · obtain ⟨signal, acc⟩ := outcome
        have undone := met.tail id (between.bindings.undoTo start)
        cases signal with
        | more =>
          let rest := Machine.tryClauses fuel solver args depth inner k clauses acc
          exact undone.resume (fun going => (Preserves.tryClauses keeps (continues.kept going stop last _) fuel args depth
            inner clauses acc undone.2 : Preserves _ rest)) _
        | halt => exact undone
        | cut target => exact met.tail (fun same => by contradiction) (between.bindings.undoTo start)

include continues values in
/-- A turn of a loop ends with the continuation or goes on behind a new barrier. -/
theorem turn {γ : Type} {ends ends' : Run Bool} {copy : Run γ} {copied : γ → Prop} {fits fits' : γ → Run Bool}
    {proceed : γ → Nat → Continuation σ} {proceed' : γ → Nat → Continuation τ}
    (ending : InStep footing (fun value value' => value' = value ∧ True) (fun _ _ _ => False) ends ends')
    (copying : Indifferent footing copied copy)
    (fitting : ∀ next, copied next →
      InStep footing (fun value value' => value' = value ∧ True) (fun _ _ _ => False) (fits next) (fits' next))
    (proceeding : ∀ next inner, copied next → Tallies footing related (Cutting inner allowed) escape
      (proceed next inner acc) (proceed' next (inner + footing.lead) acc')) (depth : Nat) :
    Tallies footing related allowed escape (turn ends copy fits proceed depth k acc)
      (turn ends' copy fits' proceed' depth k' acc') := by
  refine (Indifferent.checkDepth depth).andThen fun _ _ => Indifferent.mark.andThen fun start room =>
    ending.andThen fun ended _ => ?_
  cases ended with
  | true => exact finishAt (continues.inStep values) room id id rfl id
  | false =>
    refine copying.andThen fun next known => newBarrier fun inner => (fitting next known).andThen fun fit _ => ?_
    cases fit with
    | true =>
      exact finishAt (proceeding next inner known) room (Signal.beyond inner) (Signal.beyond (inner + footing.lead)) rfl
        .beyond
    | false =>
      exact finishAt (more values) room (Signal.beyond inner) (Signal.beyond (inner + footing.lead)) rfl .beyond

include continues fuels solves values in
theorem callProcedure (procedure : Procedure) (covers : footing.region.CoversAll args) (depth : Nat) :
    Tallies footing related allowed escape (callProcedure fuel solver procedure args depth k acc)
      (callProcedure fuel' solver' procedure args depth k' acc') := by
  rw [callProcedure_eq_turn, callProcedure_eq_turn]
  refine turn continues values ?_ (Indifferent.copyClause _) ?_ ?_ depth
  · exact (Indifferent.copyClause _).andThen fun copy coversCopy => Indifferent.unifyAll fuels coversCopy.1 covers
  · exact fun copy coversCopy => Indifferent.unifyAll fuels coversCopy.1 covers
  · exact fun copy inner coversCopy => solves (depth + 1) inner coversCopy.2 continues acc acc' values

include continues fuels solves keeps values in
theorem callPredicate (name : String) (covers : footing.region.CoversAll args) (depth : Nat) :
    Tallies footing related allowed escape (callPredicate fuel solver name args depth k acc)
      (callPredicate fuel' solver' name args depth k' acc') := by
  refine get fun machine _ => ?_
  have program : (footing.pair machine).program = machine.program := rfl
  have procedures : (footing.pair machine).procedures = machine.procedures := rfl
  rw [program, procedures]
  cases machine.program.clausesFor name args.length with
  | cons clause clauses =>
    exact (Indifferent.checkDepth depth).andThen fun _ _ => newBarrier fun inner =>
      tryClauses continues fuels solves keeps covers depth inner (clause :: clauses) acc acc' values
  | nil =>
    cases machine.procedures.named? name with
    | none => exact fail _
    | some procedure =>
      by_cases fits : procedure.arity = args.length
      · simp only [fits, if_true]
        exact callProcedure continues fuels solves values procedure covers depth
      · simp only [fits, if_false]
        exact fail _

include continues fuels solves keeps in
/-- Iterations stay in the region, since each goes on with arguments from a copy. -/
theorem iterate (plan : LoopPlan) (covers : footing.region.CoversAll args) (depth : Nat) (acc : σ) (acc' : τ)
    (values : related acc acc') :
    Tallies footing related allowed escape (iterate solver plan k fuel args depth acc)
      (iterate solver' plan k' fuel' args depth acc') := by
  induction fuel generalizing fuel' args depth acc acc' with
  | zero =>
    rcases fuels with rfl | ⟨excuse, _⟩
    · exact .throw _
    · exact .excused excuse _
  | succ fuel ih =>
    obtain ⟨fuel', rfl, fewer⟩ := fuels.pred
    rw [iterate_succ_eq_turn, iterate_succ_eq_turn]
    refine turn continues values ?_ (Indifferent.copyStep _) ?_ ?_ depth
    · exact (Indifferent.copyTemplate _).andThen fun terminal coversTerminal =>
        Indifferent.unifyAll fewer coversTerminal covers
    · exact fun copy coversCopy => Indifferent.unifyAll fewer coversCopy.1 covers
    · refine fun copy inner coversCopy => solves (depth + 1) inner coversCopy.2.1 ⟨?_, ?_⟩ acc acc' values
      · exact fun going stop last machine acc known =>
          Preserves.iterate keeps (continues.kept going stop last machine) fuel plan _ _ acc known
      · exact fun values => ih fewer coversCopy.2.2 (depth + 1) _ _ values

include continues fuels solves keeps values in
theorem solveLoop {specs body : Term} (coversSpecs : footing.region.Covers specs)
    (coversBody : footing.region.Covers body) (depth barrier : Nat) :
    Tallies footing related (Cutting barrier allowed) escape (solveLoop fuel solver specs body depth barrier k acc)
      (solveLoop fuel' solver' specs body depth (barrier + footing.lead) k' acc') := by
  refine get fun machine holds => ?_
  have bindings : (footing.pair machine).bindings = machine.bindings := rfl
  have mode : (footing.pair machine).settings.mode = machine.settings.mode := rfl
  rw [bindings, mode]
  cases made : threaded machine.bindings specs body with
  | error error => exact fail _
  | ok specs =>
    have covers := holds.confined.covers_threaded coversSpecs coversBody made
    cases machine.settings.mode with
    | compiled =>
      have compiling : Indifferent footing (fun loop => footing.region.Covers loop.goal)
          (Run.compiling (Compiler.compileLoop specs body none)) :=
        .compiling (.compileLoop specs body none) fun _ _ _ room ended => Region.covers_of_compileLoop room covers ended
      exact compiling.andThen fun compiled inside =>
        (Indifferent.report [] compiled.diagnostics).andThen fun _ _ => solves depth barrier inside continues acc acc' values
    | interpreted =>
      have planned : Indifferent footing (fun plan => footing.region.Covers (.conjunction plan.prelude) ∧
          footing.region.CoversAll plan.initial) (Run.supplied .loop (planLoop specs body)) :=
        Indifferent.supplied fun _ _ _ room ended => Region.covers_of_planLoop room covers ended
      refine planned.andThen fun plan inside => ?_
      refine solves depth barrier inside.1 ⟨?_, fun values => ?_⟩ acc acc' values
      · exact fun going stop last machine acc known =>
          Preserves.iterate keeps (continues.kept going stop last machine) fuel plan plan.initial depth acc known
      · exact iterate continues fuels solves keeps plan inside.2 depth _ _ values

include continues fuels solves keeps values in
theorem achieve {goal : Goal} (stable : goal.Stable) (covers : footing.region.CoversGoal goal) (depth barrier : Nat) :
    Tallies footing related (Cutting barrier allowed) escape (achieve fuel solver goal depth barrier k acc)
      (achieve fuel' solver' goal depth (barrier + footing.lead) k' acc') := by
  have outward {action : Run (Outcome σ)} {action' : Run (Outcome τ)}
      (tallies : Tallies footing related allowed escape action action') :
      Tallies footing related (Cutting barrier allowed) escape action action' := tallies.imp fun _ _ agree => agree.outward
  cases goal with
  | succeed => exact outward (continues.inStep values)
  | fail => exact more values
  | cut =>
    exact finish (continues.inStep values) (Signal.orCut barrier) (Signal.orCut (barrier + footing.lead)) rfl
      fun agree => agree.orCut barrier
  | both left right =>
    have rights := solving continues solves keeps covers.2 depth barrier
    exact (solves depth barrier covers.1 rights acc acc' values).imp fun _ _ agree => agree.inward
  | either left right =>
    refine (Indifferent.walk covers.1).andThen fun left coversLeft => ?_
    cases split : left.binary? "->" with
    | none => exact solveEither continues solves keeps values coversLeft covers.2 depth barrier
    | some parts =>
      have coversParts := coversLeft.binary? split
      exact solveIf continues solves keeps values coversParts.1 coversParts.2 (by simpa using covers.2) depth barrier
  | ifThen condition consequence =>
    exact solveIf continues solves keeps values covers.1 covers.2 (by simp) depth barrier
  | «unless» inner => exact outward (solveUnless continues solves values covers depth)
  | call target extra =>
    refine (Indifferent.walk covers.1).andThen fun target coversTarget => ?_
    cases made : Goal.withArgs target extra with
    | ok goal =>
      exact outward (solveConfined continues solves values (Region.covers_of_withArgs coversTarget covers.2 made) depth)
    | error error => exact InStep.fail _
  | loop specs body => exact solveLoop continues fuels solves keeps values covers.1 covers.2 depth barrier
  | collect template inner result =>
    exact outward (solveCollect continues fuels solves values template covers.2.1 covers.2.2 depth)
  | builtin action =>
    refine get fun machine holds => ?_
    have bindings : (footing.pair machine).bindings = machine.bindings := rfl
    have same : footing.excuses .exhausted ∧ action fuel machine.bindings = .error .exhausted ∨
        action fuel' machine.bindings = action fuel machine.bindings := by
      rcases fuels with rfl | ⟨excuse, le⟩
      · exact .inr rfl
      · exact (stable fuel fuel' machine.bindings le).imp_left (And.intro excuse)
    rw [bindings]
    rcases same with ⟨excuse, stopped⟩ | same
    · rw [stopped]
      exact InStep.excused excuse _
    · rw [same]
      cases asked : action fuel machine.bindings with
      | ok effect => exact outward (perform continues fuels values (covers fuel machine.bindings holds.confined effect asked))
      | error stop => exact InStep.throw _
  | predicate name args => exact outward (callPredicate continues fuels solves keeps values name covers depth)

end InStep

end

/-! ## All searches -/

namespace InStep

variable {related : α → β → Prop} {escapes : Stop → Machine → EStateM.Result Stop Machine α → Prop} {first : Run α}
  {second : Run β}

theorem holds_plain (machine : Machine) : Footing.plain.Holds machine := ⟨trivial, Region.confines_everywhere _⟩

/-- On machines that do not differ, computations in step come to an end in the same state. -/
theorem of_plain (inStep : InStep Footing.plain related escapes first second) (machine : Machine) :
    (∃ value value' after, first machine = .ok value after ∧ second machine = .ok value' after ∧ related value value') ∨
    (∃ stop after, first machine = .error stop after ∧ second machine = .error stop after) ∨
    ∃ stop after, second machine = .error stop after ∧ escapes stop after (first machine) := by
  have ends := inStep machine (holds_plain machine)
  have same : Footing.plain.pair machine = machine := rfl
  rw [same] at ends
  generalize first machine = result at ends ⊢
  generalize second machine = result' at ends ⊢
  cases ends with
  | ok values holds => exact .inl ⟨_, _, _, rfl, rfl, values⟩
  | stop stop => exact .inr (.inl ⟨stop, _, rfl, rfl⟩)
  | excused excused => exact excused.elim
  | escaped escape => exact .inr (.inr ⟨_, _, rfl, escape⟩)

end InStep

/-- What a continuation keeps is kept, since otherwise the search would not be in step with itself. -/
theorem SolversInStep.preserves {solver : Solver} (solves : SolversInStep Footing.plain solver solver) :
    SolverPreserves solver := by
  intro σ holds goal depth barrier k keeps acc known machine outcome after ended
  have continues : ContinuesInStep Footing.plain (fun acc acc' => acc' = acc ∧ holds acc) (fun _ _ _ => True) Escape.never
      k k := by
    refine ⟨Escape.kept_never k, ?_⟩
    rintro _ acc ⟨rfl, known⟩ machine _
    show Footing.Ends _ _ _ (k acc machine) (k acc machine)
    cases ended : k acc machine with
    | error stop after => exact .stop stop
    | ok outcome after =>
      exact .ok ⟨(Signal.ahead_zero _).symm, ⟨rfl, keeps acc known machine outcome after ended⟩, .inr trivial⟩
        (InStep.holds_plain after)
  have inStep := (solves depth barrier (Region.covers_everywhere goal) continues acc acc ⟨rfl, known⟩).of_plain machine
  rw [ended] at inStep
  rcases inStep with ⟨_, _, _, ⟨rfl, rfl⟩, _, agree⟩ | ⟨_, _, ⟨⟩, _⟩ | ⟨_, _, _, met⟩
  · exact agree.values.2
  · exact (Escape.not_met_never met).elim

/-- Searches with the same fuel, or with more fuel where lack of it is an excuse, are in step. -/
theorem solversInStep_solve {fuel fuel' : Nat} (fuels : footing.Fuels fuel fuel') :
    SolversInStep footing (solve fuel) (solve fuel') := by
  induction fuel generalizing footing fuel' with
  | zero =>
    intro σ τ related allowed escape goal depth barrier k k' covers continues acc acc' values
    rcases fuels with rfl | ⟨excuse, _⟩
    · exact .throw _
    · exact .excused excuse _
  | succ fuel ih =>
    obtain ⟨fuel', rfl, fewer⟩ := fuels.pred
    have keeps : SolverPreserves (solve fuel) := SolversInStep.preserves (ih (.inl rfl))
    intro σ τ related allowed escape goal depth barrier k k' covers continues acc acc' values
    refine (Indifferent.walk covers).andThen fun goal coversGoal => ?_
    cases read : Goal.ofTerm goal with
    | error error => exact .fail _
    | ok asked =>
      exact InStep.achieve continues fewer (ih fewer) keeps values (Goal.stable_of_ofTerm read)
        (Region.coversGoal_of_ofTerm coversGoal read) depth barrier

end HornLoops
