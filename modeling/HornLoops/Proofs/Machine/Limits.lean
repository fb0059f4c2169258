import HornLoops.Machine.Session
import HornLoops.Proofs.Machine.InStep

/-!
# Limits of queries

A query may be limited in the number of its answers and in how deeply calls are nested. Either limit only cuts off. Once
a continuation gives up a search, it is not asked again and the search is given up from there, out of every construct
around it, so the first answers are found as if all of them were asked for. Calls that were not too deeply nested for one
limit are not for a larger one, so what is answered under a limit is answered without it.
-/

namespace HornLoops

open Machine

/-! ## Searches that are given up -/

/-- Stops the search where the continuation would give it up. -/
def Continuation.orStop {σ : Type} (k : Continuation σ) (stop : σ → Stop) : Continuation σ := fun acc => do
  let outcome ← k acc
  match outcome.1 with
  | .halt => throw (stop outcome.2)
  | _ => return outcome

section

variable {σ : Type} (k : Continuation σ) (stop : σ → Stop)

/-- A search that is given up comes to an end with what was collected and in the state of that moment, up to the
bindings. -/
def Escape.givenUp : Escape σ where
  final := true
  holds stop' last acc machine := stop' = stop acc ∧ (∃ acc₀ before, k acc₀ before = .ok (.halt, acc) last) ∧
    ∃ bindings, machine = { last with bindings := bindings }
  blind := by
    rintro _ last acc _ bindings ⟨same, called, _, rfl⟩
    exact ⟨same, called, bindings, rfl⟩
  free impossible := by contradiction

theorem continuesInStep_orStop :
    ContinuesInStep Footing.plain Eq (fun signal _ _ => signal ≠ .halt) (Escape.givenUp k stop) k (k.orStop stop) := by
  refine ⟨fun impossible => by contradiction, ?_⟩
  rintro acc _ rfl machine _
  show Footing.plain.Ends _ _ (k acc machine) (k.orStop stop acc machine)
  cases called : k acc machine with
  | error error after =>
    simp only [Continuation.orStop, Bind.bind, EStateM.bind, called]
    exact .stop error
  | ok outcome after =>
    obtain ⟨signal, acc'⟩ := outcome
    simp only [Continuation.orStop, Bind.bind, EStateM.bind, called]
    cases signal with
    | halt => exact .escaped ⟨fun _ => rfl, rfl, ⟨acc, machine, called⟩, after.bindings, rfl⟩
    | more => exact .ok (.more rfl) (InStep.holds_plain after)
    | cut target => exact .ok ⟨rfl, rfl, .inr (by simp)⟩ (InStep.holds_plain after)

variable (fuel : Nat) (goal : Term) (depth barrier : Nat) (acc : σ) (machine : Machine)

/-- A search goes on until the continuation gives it up, and then it is given up: either stopping there instead makes no
difference, and the search was not given up, or it was given up at a call of the continuation and came to an end with
what that call answered. -/
theorem solve_orStop :
    let given := solve fuel σ goal depth barrier k acc machine
    let stopped := solve fuel σ goal depth barrier (k.orStop stop) acc machine
    (stopped = given ∧ ∀ acc' after, given ≠ .ok (.halt, acc') after) ∨
    ∃ acc₀ before acc' last bindings, k acc₀ before = .ok (.halt, acc') last ∧ stopped = .error (stop acc') last ∧
      given = .ok (.halt, acc') { last with bindings := bindings } := by
  intro given stopped
  have fuels : Footing.plain.Fuels fuel fuel := .inl rfl
  have ends := (solversInStep_solve fuels depth barrier (Region.covers_everywhere goal)
    (continuesInStep_orStop k stop) acc acc rfl).of_plain machine
  rcases ends with ⟨outcome, outcome', after, ended, ended', agree⟩ | ⟨error, after, ended, ended'⟩ |
    ⟨error, last, ended', met⟩
  · have same : outcome' = outcome := Prod.ext (agree.signals.trans (Signal.ahead_zero _)) agree.values.symm
    refine .inl ⟨(same ▸ ended').trans ended.symm, fun acc' after' halted => ?_⟩
    obtain ⟨rfl, rfl⟩ : outcome = (.halt, acc') ∧ after = after' := by simpa using ended.symm.trans halted
    rcases agree.allows with more | cutting | allowed
    · contradiction
    · contradiction
    · exact allowed rfl
  · refine .inl ⟨ended'.trans ended.symm, fun acc' after' halted => ?_⟩
    have impossible := ended.symm.trans halted
    contradiction
  · cases ended : solve fuel σ goal depth barrier k acc machine with
    | error error' after =>
      rw [ended] at met
      contradiction
    | ok outcome after =>
      rw [ended] at met
      obtain ⟨signal, acc'⟩ := outcome
      obtain ⟨halts, rfl, ⟨acc₀, before, called⟩, bindings, rfl⟩ := met
      obtain rfl : signal = .halt := halts rfl
      exact .inr ⟨acc₀, before, acc', last, bindings, called, ended', ended⟩

variable {k fuel goal depth barrier acc machine}

/-- If stopping instead of giving up always stops a search, then it is given up, with something that it can be stopped
with. -/
theorem exists_solve_halt {holds : σ → Prop}
    (stops : ∀ stop, ∃ acc' last, holds acc' ∧
      solve fuel σ goal depth barrier (k.orStop stop) acc machine = .error (stop acc') last) :
    ∃ acc' after, holds acc' ∧ solve fuel σ goal depth barrier k acc machine = .ok (.halt, acc') after := by
  classical
  -- a search that is not given up stops with the same error for every `stop`
  obtain ⟨acc', after, ended⟩ : ∃ acc' after, solve fuel σ goal depth barrier k acc machine = .ok (.halt, acc') after := by
    obtain ⟨_, _, _, stopped⟩ := stops fun _ => .exhausted
    obtain ⟨_, _, _, stopped'⟩ := stops fun _ => .error (.depthLimit 0)
    rcases solve_orStop k (fun _ => .exhausted) fuel goal depth barrier acc machine with
      ⟨same, _⟩ | ⟨_, _, acc', last, bindings, _, _, ended⟩
    · rcases solve_orStop k (fun _ => .error (.depthLimit 0)) fuel goal depth barrier acc machine with
        ⟨same', _⟩ | ⟨_, _, acc', last, bindings, _, _, ended⟩
      · have impossible := (stopped.symm.trans (same.trans (same'.symm.trans stopped')))
        simp at impossible
      · exact ⟨acc', _, ended⟩
    · exact ⟨acc', _, ended⟩
  -- what it is given up with can be told from everything else by the error
  obtain ⟨acc'', _, known, stopped⟩ := stops fun other => if other = acc' then .exhausted else .error (.depthLimit 0)
  refine ⟨acc', after, ?_, ended⟩
  rcases solve_orStop k (fun other => if other = acc' then .exhausted else .error (.depthLimit 0)) fuel goal depth barrier
    acc machine with ⟨_, other⟩ | ⟨_, _, other, last, bindings, _, stopped', ended'⟩
  · exact absurd ended (other acc' after)
  · obtain ⟨rfl, _⟩ : acc' = other ∧ _ := by simpa using ended.symm.trans ended'
    have same := stopped.symm.trans stopped'
    by_cases equal : acc'' = acc'
    · exact equal ▸ known
    · simp [equal] at same

end

/-! ## Answers up to a number -/

/-- While the first answers are noted, they are the last ones of those that were found. -/
def Escape.enough (count : Nat) (stop : List Answer → Stop) : Escape (List Answer) where
  final := false
  holds stop' _ found _ := ∃ first, first <:+ found ∧ first.length = count ∧ stop' = stop first
  blind _ known := known
  free _ _ _ _ _ _ known := known

/-- All answers are noted in step with the first ones, up to the last of these. -/
theorem continuesInStep_noteAnswer (names : List (String × Nat)) (count : Nat) (stop : List Answer → Stop) :
    ContinuesInStep Footing.plain (fun found found' => found' = found ∧ found.length < count) (fun _ _ _ => False)
      (Escape.enough count stop) (noteAnswer names none) ((noteAnswer names (some count)).orStop stop) := by
  have noted (limit : Option Nat) (found : List Answer) (machine : Machine) :
      noteAnswer names limit found machine =
        if (names.map fun entry => Term.var entry.2).all machine.bindings.ends then
          .ok (if enough limit (answerFor names machine.bindings :: found) then .halt else .more,
            answerFor names machine.bindings :: found) machine
        else .error .exhausted machine := by
    rw [noteAnswer, Run.checkEnds_bind]
    rfl
  refine ⟨fun _ stop' last machine found known before outcome after ended => ?_, ?_⟩
  · obtain ⟨first, behind, length, same⟩ := known
    rw [noted] at ended
    split at ended
    · cases ended
      exact ⟨first, behind.trans (List.suffix_cons _ _), length, same⟩
    · contradiction
  · rintro _ found ⟨rfl, few⟩ machine _
    show Footing.plain.Ends _ _ (noteAnswer names none found machine)
      ((noteAnswer names (some count)).orStop stop found machine)
    simp only [Continuation.orStop, Bind.bind, EStateM.bind, noted]
    by_cases ends : (names.map fun entry => Term.var entry.2).all machine.bindings.ends = true
    · rw [if_pos ends, if_pos ends]
      by_cases full : count ≤ found.length + 1
      · have halts : enough (some count) (answerFor names machine.bindings :: found) = true := by simpa [enough] using full
        simp only [halts, if_true]
        refine .escaped ⟨fun impossible => by contradiction, _, List.suffix_refl _, ?_, rfl⟩
        rw [List.length_cons]
        omega
      · have goesOn : enough (some count) (answerFor names machine.bindings :: found) = false := by
          simpa [enough] using full
        simp only [goesOn]
        refine .ok (.more ⟨rfl, ?_⟩) (InStep.holds_plain machine)
        rw [List.length_cons]
        omega
    · rw [if_neg ends, if_neg ends]
      exact .stop _

variable {fuel count : Nat} {machine after : Machine} {found : List Answer}

/-- A search for all answers that comes to an end does so when only the first ones are asked for, with these. -/
theorem exists_solve_noteAnswer {goal : Term} {depth barrier : Nat} {names : List (String × Nat)} {signal : Signal}
    (ended : solve fuel (List Answer) goal depth barrier (noteAnswer names none) [] machine = .ok (signal, found) after)
    (positive : 0 < count) :
    ∃ outcome after', solve fuel (List Answer) goal depth barrier (noteAnswer names (some count)) [] machine =
      .ok outcome after' ∧ outcome.2.reverse = found.reverse.take count := by
  let stopped (stop : List Answer → Stop) :=
    solve fuel (List Answer) goal depth barrier ((noteAnswer names (some count)).orStop stop) [] machine
  have fuels : Footing.plain.Fuels fuel fuel := .inl rfl
  have cases (stop : List Answer → Stop) : (stopped stop = .ok (signal, found) after ∧ found.length < count) ∨
      ∃ first last, (first <:+ found ∧ first.length = count) ∧ stopped stop = .error (stop first) last := by
    have ends := (solversInStep_solve fuels depth barrier (Region.covers_everywhere goal)
      (continuesInStep_noteAnswer names count stop) [] [] ⟨rfl, positive⟩).of_plain machine
    rw [ended] at ends
    rcases ends with ⟨outcome, outcome', _, ⟨⟩, ended', agree⟩ | ⟨_, _, ⟨⟩, _⟩ | ⟨_, last, ended', _, first, behind, length, rfl⟩
    · obtain ⟨same, few⟩ := agree.values
      have equal : outcome' = (signal, found) := Prod.ext (agree.signals.trans (Signal.ahead_zero _)) same
      exact .inl ⟨equal ▸ ended', few⟩
    · exact .inr ⟨first, last, ⟨behind, length⟩, ended'⟩
  by_cases few : found.length < count
  · have ended' : stopped (fun _ => .exhausted) = .ok (signal, found) after := by
      rcases cases fun _ => .exhausted with ⟨ended', _⟩ | ⟨first, _, ⟨behind, length⟩, _⟩
      · exact ended'
      · have le := behind.length_le
        omega
    rcases solve_orStop (noteAnswer names (some count)) (fun _ => .exhausted) fuel goal depth barrier [] machine with
      ⟨same, _⟩ | ⟨_, _, _, _, _, _, impossible, _⟩
    · exact ⟨_, after, same.symm.trans ended', (List.take_of_length_le (by simpa using few.le)).symm⟩
    · have absurd := ended'.symm.trans impossible
      contradiction
  · obtain ⟨first, after', ⟨behind, length⟩, ended'⟩ := exists_solve_halt fun stop => (cases stop).resolve_left (by
      rintro ⟨_, few'⟩
      exact few few')
    refine ⟨_, after', ended', ?_⟩
    rw [← length, ← List.length_reverse]
    exact List.prefix_iff_eq_take.mp (List.reverse_prefix.mpr behind)

/-! ## Queries -/

namespace Machine

/-- Reads a query and prepares its goal. What is left to do is told by the variables that are shown, the goal and its
barrier. -/
def pose (text : String) : Run (List (String × Nat) × Term × Nat) := do
  let read ← Run.supplied .reading (readTerm text)
  let treated ← prepareGoal read.term
  Run.report read.names treated.2
  let barrier ← Run.newBarrier
  return (shownNames read, treated.1, barrier)

theorem answers_eq (fuel : Nat) (text : String) (limit : Option Nat) :
    answers fuel text limit = Run.restoring (do
      let asked ← pose text
      let outcome ← solve fuel (List Answer) asked.2.1 0 asked.2.2 (noteAnswer asked.1 limit) []
      return outcome.2.reverse) := by
  simp only [answers, pose, bind_assoc, pure_bind]

/-- A query is answered if it can be posed and the search for its goal comes to an end. -/
theorem exists_answers_iff {fuel : Nat} {text : String} {limit : Option Nat} {machine : Machine} {found : List Answer} :
    (∃ after, answers fuel text limit machine = .ok found after) ↔
      ∃ asked posed, pose text machine = .ok asked posed ∧ ∃ outcome after,
        solve fuel (List Answer) asked.2.1 0 asked.2.2 (noteAnswer asked.1 limit) [] posed = .ok outcome after ∧
          outcome.2.reverse = found := by
  rw [answers_eq]
  simp only [Run.restoring, Bind.bind, EStateM.bind]
  cases pose text machine with
  | error stop posed => simp
  | ok asked posed =>
    cases ended : solve fuel (List Answer) asked.2.1 0 asked.2.2 (noteAnswer asked.1 limit) [] posed with
    | error stop after => simp [ended]
    | ok outcome after => simp [ended, Pure.pure, EStateM.pure, Prod.ext_iff]

end Machine

/-- A query that comes to an end does so if only its first answers are asked for. -/
theorem exists_answers_take {text : String} (ended : query fuel text machine = .ok found after) (positive : 0 < count) :
    ∃ after', answers fuel text (some count) machine = .ok (found.take count) after' := by
  obtain ⟨asked, posed, poses, outcome, after, solved, rfl⟩ := exists_answers_iff.mp ⟨after, ended⟩
  obtain ⟨outcome', after', solved', first⟩ := exists_solve_noteAnswer solved positive
  exact exists_answers_iff.mpr ⟨asked, posed, poses, outcome', after', solved', first⟩

/-- Asking for fewer answers gives the first ones: if a query comes to an end, then so it does if a number of answers is
asked for, with as many of them from the front, and if one is asked for, with the first one. The reason is a law for all
searches: once a continuation gives up, it is not called again, and the search is given up with what was collected then
and in the state of that moment, up to the bindings. -/
theorem first_answers_of_query (fuel : Nat) (machine : Machine) :
    (∀ text found after, query fuel text machine = .ok found after →
      (∀ count, ∃ after', queryLimit fuel text count machine = .ok (found.take count) after') ∧
        ∃ after', queryOnce fuel text machine = .ok found.head? after') ∧
    ∀ (σ : Type) (k : Continuation σ) (stop : σ → Stop) (goal : Term) (depth barrier : Nat) (acc : σ),
      let given := solve fuel σ goal depth barrier k acc machine
      let stopped := solve fuel σ goal depth barrier (k.orStop stop) acc machine
      (stopped = given ∧ ∀ acc' after, given ≠ .ok (.halt, acc') after) ∨
      ∃ acc₀ before acc' last bindings, k acc₀ before = .ok (.halt, acc') last ∧ stopped = .error (stop acc') last ∧
        given = .ok (.halt, acc') { last with bindings := bindings } := by
  refine ⟨fun text found after ended => ⟨fun count => ?_, ?_⟩, fun σ k stop goal depth barrier acc =>
    solve_orStop k stop fuel goal depth barrier acc machine⟩
  · rw [queryLimit]
    split
    case isTrue none =>
      rw [none, List.take_zero]
      exact ⟨machine, rfl⟩
    case isFalse some => exact exists_answers_take ended (Nat.pos_of_ne_zero some)
  · obtain ⟨after', first⟩ := exists_answers_take ended Nat.one_pos
    refine ⟨after', ?_⟩
    rw [queryOnce, bind_of_ok first, List.head?_take]
    rfl

/-- A machine without a program can be asked for two of three answers. -/
theorem first_answers_of_query_three : ∃ after after',
    query 9 "X = 1 ; X = 2 ; X = 3" {} =
      .ok [⟨[("X", .int 1)]⟩, ⟨[("X", .int 2)]⟩, ⟨[("X", .int 3)]⟩] after ∧
    queryLimit 9 "X = 1 ; X = 2 ; X = 3" 2 {} = .ok [⟨[("X", .int 1)]⟩, ⟨[("X", .int 2)]⟩] after' := by
  have found : ∃ after, query 9 "X = 1 ; X = 2 ; X = 3" {} =
      .ok [⟨[("X", .int 1)]⟩, ⟨[("X", .int 2)]⟩, ⟨[("X", .int 3)]⟩] after := exists_of_run' (by decide +kernel)
  obtain ⟨after, ended⟩ := found
  obtain ⟨after', first⟩ := ((first_answers_of_query 9 {}).1 _ _ _ ended).1 2
  exact ⟨after, after', ended, first⟩

/-! ## Nested calls -/

/-- The machine with another limit for nested calls. -/
def Machine.nesting (limit : Option Nat) (machine : Machine) : Machine :=
  { machine with settings := { machine.settings with depthLimit := limit } }

/-- The second machine allows calls to be nested more deeply. -/
def Footing.deeper {bound : Nat} {wider : Option Nat} (larger : ∀ bound', wider = some bound' → bound ≤ bound') :
    Footing where
  invariant machine := machine.settings.depthLimit = some bound
  lasting _ _ settings _ _ known := (congrArg Settings.depthLimit settings).trans known
  excuses stop := ∃ bound, stop = .error (.depthLimit bound)
  loosen _ := wider
  looser _ known := .inr ⟨fun bound => ⟨bound, rfl⟩, fun bound' limited => ⟨bound, larger bound' limited, known⟩⟩

namespace InStep

variable {footing : Footing}

theorem restoring {α β : Type} {related : α → β → Prop} {action : Run α} {action' : Run β}
    (inStep : InStep footing related (fun _ _ _ => False) action action') :
    InStep footing related (fun _ _ _ => False) (Run.restoring action) (Run.restoring action') := by
  intro machine holds
  have ends := inStep machine holds
  have bindings : (footing.pair machine).bindings = machine.bindings := rfl
  simp only [Run.restoring, bindings]
  generalize action machine = result at ends
  generalize action' (footing.pair machine) = result' at ends
  cases ends with
  | ok values between =>
    exact .ok values (between.step rfl rfl (List.prefix_refl _) (between.confined.undoTo holds.confined.size))
  | stop stop => exact .stop stop
  | excused excused => exact .excused excused
  | escaped impossible => exact impossible.elim

/-- Goals are prepared alike. -/
theorem prepareGoal (goal : Term) : Indifferent footing (fun _ => True) (prepareGoal goal) := by
  refine InStep.get fun machine _ => ?_
  have ahead : (footing.pair machine).settings.expandsAhead = machine.settings.expandsAhead := rfl
  rw [ahead]
  split
  · exact Indifferent.compiling (Compiler.kept_isPrefix.expandGoal goal []) fun _ _ _ _ _ => trivial
  · split
    · exact .pure ⟨rfl, trivial⟩
    · exact .fail _

/-- Answers are noted alike. -/
theorem noteAnswer (names : List (String × Nat)) (limit : Option Nat) :
    ContinuesInStep footing Eq (fun _ _ _ => True) Escape.never (noteAnswer names limit) (noteAnswer names limit) := by
  refine ⟨Escape.kept_never _, ?_⟩
  rintro found _ rfl
  refine (Indifferent.checkEnds _).andThen fun _ _ => InStep.get fun machine _ => InStep.pure ⟨?_, rfl, .inr trivial⟩
  have bindings : (footing.pair machine).bindings = machine.bindings := rfl
  rw [bindings]
  cases enough limit (answerFor names machine.bindings :: found) <;> rfl

end InStep

section

variable {bound : Nat} {wider : Option Nat} (larger : ∀ bound', wider = some bound' → bound ≤ bound')

theorem indifferent_pose (text : String) : Indifferent (Footing.deeper larger) (fun _ => True) (pose text) :=
  have reads : Indifferent (Footing.deeper larger) (fun _ => True) (Run.supplied .reading (readTerm text)) :=
    Indifferent.supplied fun _ _ _ _ _ => trivial
  reads.andThen fun read _ => (InStep.prepareGoal read.term).andThen fun treated _ =>
    (Indifferent.report read.names treated.2).andThen fun _ _ => InStep.newBarrier fun _ => .pure ⟨rfl, trivial⟩

theorem indifferent_answers (fuel : Nat) (text : String) (count : Option Nat) :
    Indifferent (Footing.deeper larger) (fun _ => True) (answers fuel text count) := by
  have fuels : (Footing.deeper larger).Fuels fuel fuel := .inl rfl
  rw [answers_eq]
  refine InStep.restoring ((indifferent_pose larger text).andThen fun asked _ => ?_)
  have solves := solversInStep_solve fuels 0 asked.2.2 (Region.covers_everywhere asked.2.1)
    (InStep.noteAnswer asked.1 count) [] [] rfl
  refine solves.bind (fun outcome outcome' agree => .pure ⟨?_, trivial⟩)
    (fun met => (Escape.not_met_never met).elim) fun met => (Escape.not_met_never met).elim
  rw [agree.values]

include larger in
/-- The limit for nested calls only cuts off: what a query comes to under a limit, it comes to under every larger one and
without one, unless it is the error that calls are nested too deeply. The machine afterwards is the same up to the
limit, with what was written, warned about and registered. -/
theorem answers_of_deeper (fuel : Nat) (text : String) (count : Option Nat) (machine : Machine) :
    let limited := answers fuel text count (machine.nesting (some bound))
    let deeper := answers fuel text count (machine.nesting wider)
    (∀ found after, limited = .ok found after → deeper = .ok found (after.nesting wider)) ∧
    ∀ stop after, limited = .error stop after → (∀ bound', stop ≠ .error (.depthLimit bound')) →
      deeper = .error stop (after.nesting wider) := by
  intro limited deeper
  have ends : (Footing.deeper larger).Ends _ _ limited deeper :=
    indifferent_answers larger fuel text count (machine.nesting (some bound)) ⟨rfl, Region.confines_everywhere _⟩
  generalize limited = result at ends ⊢
  generalize deeper = result' at ends ⊢
  cases ends with
  | ok values holds =>
    refine ⟨?_, fun _ _ impossible => by contradiction⟩
    rintro found after ⟨⟩
    rw [values.1]
    rfl
  | stop stop =>
    refine ⟨fun _ _ impossible => by contradiction, ?_⟩
    rintro _ after ⟨⟩ _
    rfl
  | excused excused =>
    refine ⟨fun _ _ impossible => by contradiction, ?_⟩
    rintro stop after ⟨⟩ other
    obtain ⟨bound', rfl⟩ := excused
    exact absurd rfl (other bound')
  | escaped impossible => exact impossible.elim

end

/-- A loop with two iterations makes three nested calls. It runs with a limit of three, and so without a limit. -/
theorem answers_of_deeper_loop : ∃ after,
    answers 20 "foreach(X, [a, b]) do atom(X)" none (nesting (some 3) {}) = .ok [⟨[("X", .var 0)]⟩] after ∧
    answers 20 "foreach(X, [a, b]) do atom(X)" none (nesting none {}) =
      .ok [⟨[("X", .var 0)]⟩] (after.nesting none) := by
  have found : ∃ after, answers 20 "foreach(X, [a, b]) do atom(X)" none (nesting (some 3) {}) =
      .ok [⟨[("X", .var 0)]⟩] after := exists_of_run' (by decide +kernel)
  obtain ⟨after, ended⟩ := found
  exact ⟨after, ended, (answers_of_deeper (by simp) 20 _ none {}).1 _ _ ended⟩

end HornLoops
