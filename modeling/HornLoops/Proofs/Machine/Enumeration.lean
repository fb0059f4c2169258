import HornLoops.Proofs.Machine.Framing
import HornLoops.Proofs.Machine.Independence
import HornLoops.Proofs.Machine.Queries

/-!
# Collecting and enumerating

Asking for all answers to a goal and collecting instances of a template for its solutions are two ways to run the same
search: what is noted of a solution differs, and the search does not look at it. If the answers to a goal have been
found, collecting finishes as well, with the instances of the template under these answers, in order and with new
variables.

For queries this holds as far as the same goal is searched for. The loops of a query are settled or compiled when it is
read, with the variables that they share. A goal to collect for is not looked into: its loops are reached as they are
written, and a variable that a loop shares, does not declare and finds unbound is local to the loop.
-/

namespace HornLoops

open Bindings Machine

/-! ## Instances under answers -/

/-- A term with the values of an answer in place of the variables that the answer is about. -/
def Answer.instantiate (answer : Answer) (names : List (String × Nat)) (template : Term) : Term :=
  template.subst fun id => (((names.map (·.2)).zip (answer.values.map (·.2))).lookup id).getD (.var id)

/-- All variables of a term are among those with a name. -/
def Shown (names : List (String × Nat)) (template : Term) : Prop := ∀ id ∈ template.occurrences, id ∈ names.map (·.2)

section

variable {id result fuel count : Nat} {found : List Answer} {names' names : List (String × Nat)}
  {template goal value : Term} {σ : Type} {machine after : Machine} {signal : Signal} {forms : List NormalForm}
  {collecting : String}

/-- A value is found for every variable if there are as many values as variables. -/
theorem exists_lookup_zip {ids : List Nat} {values : List Term} (lengths : values.length = ids.length)
    (member : id ∈ ids) : ∃ value ∈ values, (ids.zip values).lookup id = some value := by
  induction ids generalizing values with
  | nil => contradiction
  | cons first ids ih =>
    match values with
    | value :: values =>
      by_cases here : id = first
      · exact ⟨value, List.mem_cons_self, by simp [here]⟩
      · have member' : id ∈ ids := (List.mem_cons.mp member).resolve_left here
        have lengths' : values.length = ids.length := by simpa using lengths
        obtain ⟨found, inside, looked⟩ := ih lengths' member'
        refine ⟨found, List.mem_cons_of_mem _ inside, ?_⟩
        rw [List.zip_cons_cons, List.lookup_cons, beq_false_of_ne here]
        exact looked

theorem lookup_zip_map (ids : List Nat) (values : List Term) (change : Term → Term) (id : Nat) :
    (ids.zip (values.map change)).lookup id = ((ids.zip values).lookup id).map change := by
  induction ids generalizing values with
  | nil => rfl
  | cons first ids ih =>
    cases values with
    | nil => rfl
    | cons value values =>
      by_cases here : id = first
      · simp [here]
      · simp only [List.map_cons, List.zip_cons_cons, List.lookup_cons, beq_false_of_ne here, ih]

section

variable {names : List (String × Nat)} {template : Term} (shown : Shown names template)
include shown

/-- The answer that the bindings give for the variables of a term makes the same of it as the bindings. -/
theorem instantiate_answerFor (bindings : Bindings) :
    (answerFor names bindings).instantiate names template = bindings.resolve template := by
  have values : (names.map (·.2)).zip ((answerFor names bindings).values.map (·.2)) =
      (names.map (·.2)).map fun id => (id, bindings.resolve (.var id)) := by
    simp [answerFor, List.zip_map', Function.comp_def]
  rw [resolve_eq_subst, Answer.instantiate, values]
  apply Term.subst_congr
  intro id occurs
  rw [List.lookup_graph _ (shown id occurs), Option.getD_some]

/-- Answers that are variants make instances that are variants. -/
theorem Answer.Variant.normalize_instantiate {left right : Answer} (variant : left.Variant right)
    (complete : left.values.length = names.length) :
    (right.instantiate names template).normalize = (left.instantiate names template).normalize := by
  obtain ⟨number, injective, same⟩ := variant
  have lengths : (left.values.map (·.2)).length = (names.map (·.2)).length := by simpa using complete
  have values : right.values.map (·.2) = (left.values.map (·.2)).map (Term.rename number) := by
    simp [same, Function.comp_def]
  have renamed : right.instantiate names template = (left.instantiate names template).rename number := by
    rw [Answer.instantiate, Answer.instantiate, values, Term.rename, Term.subst_subst]
    apply Term.subst_congr
    intro id occurs
    obtain ⟨value, _, looked⟩ := exists_lookup_zip lengths (shown id occurs)
    rw [lookup_zip_map, looked]
    rfl
  rw [renamed, Term.normalize_rename]
  refine injective.mono fun id occurs => ?_
  rw [Answer.instantiate, Term.mem_occurrences_subst] at occurs
  obtain ⟨other, inside, occurs⟩ := occurs
  obtain ⟨value, member, looked⟩ := exists_lookup_zip lengths (shown other inside)
  rw [looked, Option.getD_some] at occurs
  obtain ⟨entry, origin, rfl⟩ := List.mem_map.mp member
  exact List.mem_flatMap.mpr ⟨entry, origin, occurs⟩

/-- A run has just one answer about some variables. One of them is the list of the instances of a template under other
answers, in order and up to the names of unbound variables, and the others are unbound. -/
def Gathers (names : List (String × Nat)) (template : Term) (found : List Answer) (shown : List (String × Nat))
    (result : Nat) (run : EStateM.Result Stop Machine (List Answer)) : Prop :=
  ∃ items after, run = .ok [collectedAnswer shown result items] after ∧
    List.Forall₂ (fun answer item => item.normalize = (answer.instantiate names template).normalize) found items

/-- What gathers instances under answers gathers instances under their variants. -/
theorem Gathers.of_variants {found found' : List Answer} {names' : List (String × Nat)} {result : Nat}
    {run : EStateM.Result Stop Machine (List Answer)} (variants : List.Forall₂ Answer.Variant found found')
    (complete : ∀ answer ∈ found', answer.values.length = names.length)
    (gathers : Gathers names template found' names' result run) : Gathers names template found names' result run := by
  obtain ⟨items, after, ended, instances⟩ := gathers
  refine ⟨items, after, ended, ?_⟩
  clear ended
  induction variants generalizing items with
  | nil =>
    cases instances
    exact .nil
  | cons variant _ ih =>
    obtain ⟨here, later⟩ := List.forall_mem_cons.mp complete
    cases instances with
    | cons same rest =>
      exact .cons (same.trans (variant.symm.normalize_instantiate shown here).symm) (ih later _ rest)

end

/-! ## The same search -/

/-- Notes the instance of a template in a solution, in normal form. -/
def Machine.noteInstance (template : Term) : Continuation (List NormalForm) := fun found => do
  return (.more, (← Run.resolve template).normalize :: found)

/-- Instances of a template that were noted for answers about some variables. -/
def Noted (names : List (String × Nat)) (template : Term) (found : List Answer) (forms : List NormalForm) : Prop :=
  (∀ answer ∈ found, answer.values.length = names.length) ∧
    forms = found.map fun answer => (answer.instantiate names template).normalize

/-- A machine with one barrier more, which may come to an end where the other one does not. -/
def Footing.oneAhead : Footing where
  excuses _ := True
  lead := 1

/-- Noting instances is in step with noting answers. -/
theorem continuesInStep_noteInstance (shown : Shown names template) :
    ContinuesInStep Footing.oneAhead (Noted names template) (fun _ _ _ => False) Escape.never (noteAnswer names none)
      (noteInstance template) := by
  refine ⟨Escape.kept_never _, ?_⟩
  rintro found _ ⟨complete, rfl⟩ machine holds
  rw [noteAnswer, Run.checkEnds_bind]
  by_cases ends : (names.map fun entry => Term.var entry.2).all machine.bindings.ends = true
  · have ended : machine.bindings.ends template = true := by
      rw [ends_iff]
      intro id occurs
      obtain ⟨entry, member, same⟩ := List.mem_map.mp (shown id occurs)
      rw [List.all_map, List.all_eq_true] at ends
      exact same ▸ ends entry member
    have noted : noteInstance template (found.map fun answer => (answer.instantiate names template).normalize)
        (Footing.oneAhead.pair machine) = .ok (.more, (machine.bindings.resolve template).normalize ::
          found.map fun answer => (answer.instantiate names template).normalize)
          (Footing.oneAhead.pair machine) := by
      rw [noteInstance, Run.resolve_bind]
      exact if_pos ended
    rw [if_pos ends, noted]
    refine .ok (.more ⟨List.forall_mem_cons.mpr ⟨by simp [answerFor], complete⟩, ?_⟩) holds
    rw [List.map_cons, instantiate_answerFor shown]
  · rw [if_neg ends]
    exact .excused trivial

/-- Collecting goes on from the instances that a search has noted. -/
theorem solveCollect_of_solve {depth : Nat}
    (solved : solve fuel (List NormalForm) goal depth (machine.barriers + 1) (noteInstance template) []
      { machine with barriers := machine.barriers + 1 } = .ok (signal, forms) after) (result : Term)
    (k : Continuation σ) (acc : σ) :
    solveCollect fuel (solve fuel) template goal result depth k acc machine =
      (copyAll forms.reverse >>= fun items => equate fuel [result] [.list items] k acc) after := by
  rw [solveCollect, Run.newBarrier_bind]
  exact bind_of_ok solved

/-- A copy of a term has the same normal form and new variables. -/
theorem normalize_copy (term : Term) (next : Nat) :
    (term.normalize.term.rename (next + ·)).normalize = term.normalize ∧
      ∀ id ∈ (term.normalize.term.rename (next + ·)).occurrences, next ≤ id := by
  have copied : term.normalize.term.rename (next + ·) = term.rename fun id => next + term.vars.idxOf id :=
    Term.rename_rename _ _ term
  rw [copied]
  constructor
  · apply Term.normalize_rename
    intro one member other member' same
    have position : term.vars.idxOf one = term.vars.idxOf other := Nat.add_left_cancel same
    exact (List.idxOf_inj (Term.mem_vars.mpr member)).mp position
  · exact Term.forall_mem_rename fun _ _ => Nat.le_add_right _ _

/-- Copies of normal forms have these normal forms and new variables. -/
theorem exists_copyAll (terms : List Term) (machine : Machine) :
    ∃ items size, copyAll (terms.map Term.normalize) machine =
        .ok items { machine with bindings := machine.bindings.reserve size } ∧
      List.Forall₂ (fun term item => item.normalize = term.normalize) terms items ∧
      ∀ item ∈ items, ∀ id ∈ item.occurrences, machine.bindings.size ≤ id := by
  induction terms generalizing machine with
  | nil => exact ⟨[], 0, by rw [reserve_zero]; rfl, .nil, by simp⟩
  | cons term terms ih =>
    let next := machine.bindings.size
    obtain ⟨same, new⟩ := normalize_copy term next
    obtain ⟨items, size, copied, variants, news⟩ :=
      ih { machine with bindings := machine.bindings.reserve (next + term.normalize.width) }
    have grown : next ≤ (machine.bindings.reserve (next + term.normalize.width)).size := by
      rw [size_reserve]
      exact Nat.le_max_left _ _
    refine ⟨term.normalize.term.rename (next + ·) :: items, max (next + term.normalize.width) size, ?_,
      .cons same variants, List.forall_mem_cons.mpr ⟨new, ?_⟩⟩
    · rw [List.map_cons, copyAll, Run.take_bind, bind_of_ok copied, reserve_reserve]
      rfl
    · exact fun item member id occurs => Nat.le_trans grown (news item member id occurs)

/-! ## The answer -/

/-- An unbound variable is unified with a value by binding it. -/
theorem equate_unbound (machine : Machine) (unbound : machine.bindings.lookup? id = none)
    (solid : value.isVar = false) (fuel : Nat) (k : Continuation σ) (acc : σ) :
    equate (fuel + 1) [.var id] [value] k acc machine =
      (k acc >>= fun result => Run.undoTo machine.bindings.mark >>= fun _ => pure result)
        { machine with bindings := machine.bindings.bind id value } := by
  have unified : machine.bindings.unifyAll (fuel + 1) [.var id] [value] =
      (some true, machine.bindings.bind id value) := by
    have pairs : unifyPairs (fuel + 1) [(.var id, value)] machine.bindings =
        (some true, machine.bindings.bind id value) := by
      rw [unifyPairs_bind (.inl ⟨walk_unbound unbound, walk_of_isVar_eq_false solid⟩), unifyPairs]
      rintro target rfl
      contradiction
    simp only [unifyAll, List.length_singleton, if_true, takingBack, unifyEach, unify, pairs]
  rw [equate, Run.mark_bind, Run.unifyAll_bind_some _ unified]
  rfl

/-- A variable that was bound to a term without bound variables has that term for its value. -/
theorem Bindings.resolve_bind {bindings : Bindings} (room : id < bindings.size)
    (apart : ∀ other ∈ value.occurrences, other ≠ id ∧ bindings.lookup? other = none) :
    (bindings.bind id value).ends (.var id) = true ∧ (bindings.bind id value).resolve (.var id) = value := by
  have bound : (bindings.bind id value).lookup? id = some value := by rw [lookup?_bind room, if_pos rfl]
  have unbound (other : Nat) (occurs : other ∈ value.occurrences) : (bindings.bind id value).lookup? other = none := by
    obtain ⟨differs, free⟩ := apart other occurs
    rw [lookup?_bind room, if_neg differs, free]
  have within : (bindings.bind id value).endsWithin 1 (.var id) = true := by
    rw [endsWithin_succ]
    intro other same value' found
    rw [List.mem_singleton.mp same, bound, Option.some.injEq] at found
    exact found ▸ endsWithin_zero.mpr unbound
  have ended := ends_of_endsWithin within
  refine ⟨ended, ?_⟩
  rw [resolve_bound bound ended, resolve_eq_subst]
  exact Term.subst_eq_self fun other occurs => resolve_unbound (unbound other occurs)

/-- The answer where just one of the variables is bound, and the variables in its value are not. -/
theorem noteAnswer_bound (machine : Machine) {items : List Term} (room : id < machine.bindings.size)
    (unbound : ∀ entry ∈ names, machine.bindings.lookup? entry.2 = none)
    (apart : ∀ other ∈ (Term.list items).occurrences, other ≠ id ∧ machine.bindings.lookup? other = none)
    (found : List Answer) :
    noteAnswer names none found { machine with bindings := machine.bindings.bind id (.list items) } =
      .ok (.more, collectedAnswer names id items :: found)
        { machine with bindings := machine.bindings.bind id (.list items) } := by
  let bindings := machine.bindings.bind id (.list items)
  have values (entry : String × Nat) (member : entry ∈ names) : bindings.ends (.var entry.2) = true ∧
      bindings.resolve (.var entry.2) = if entry.2 = id then .list items else .var entry.2 := by
    by_cases same : entry.2 = id
    · rw [if_pos same, same]
      exact resolve_bind room apart
    · have free : bindings.lookup? entry.2 = none := by
        rw [lookup?_bind room, if_neg same]
        exact unbound entry member
      have ended : bindings.endsWithin 0 (.var entry.2) = true := by
        rw [endsWithin_zero]
        exact List.forall_mem_singleton.mpr free
      rw [if_neg same]
      exact ⟨ends_of_endsWithin ended, resolve_unbound free⟩
  have checked : (names.map fun entry => Term.var entry.2).all bindings.ends = true := by
    rw [List.all_map, List.all_eq_true]
    exact fun entry member => (values entry member).1
  have answer : answerFor names bindings = collectedAnswer names id items :=
    congrArg Answer.mk (List.map_congr_left fun entry member => congrArg (Prod.mk entry.1) (values entry member).2)
  rw [noteAnswer, Run.checkEnds_bind, if_pos checked, Run.get_bind, answer]
  rfl

/-! ## Enumerating -/

/-- All answers to a goal, in order. -/
def Machine.enumerate (fuel : Nat) (names : List (String × Nat)) (goal : Term) : Run (List Answer) := do
  let barrier ← Run.newBarrier
  let (_, found) ← solve fuel (List Answer) goal 0 barrier (noteAnswer names none) []
  return found.reverse

/-- The goal that collects instances of a template. -/
def Term.findall (template goal result : Term) : Term := .build "findall" [template, goal, result]

/-- The answers to a goal are found by a search. -/
theorem exists_solve_of_enumerate (ended : enumerate fuel names goal machine = .ok found after) :
    ∃ signal, solve fuel (List Answer) goal 0 (machine.barriers + 1) (noteAnswer names none) []
      { machine with barriers := machine.barriers + 1 } = .ok (signal, found.reverse) after := by
  rw [enumerate, Run.newBarrier_bind] at ended
  simp only [Bind.bind, EStateM.bind] at ended
  match solved : solve fuel (List Answer) goal 0 (machine.barriers + 1) (noteAnswer names none) []
      { machine with barriers := machine.barriers + 1 } with
  | .error stop later => simp [solved] at ended
  | .ok (signal, noted) later =>
    rw [solved] at ended
    obtain ⟨rfl, rfl⟩ := ended
    exact ⟨signal, by rw [List.reverse_reverse]⟩

theorem isVar_list (items : List Term) : (Term.list items).isVar = false := by
  cases items <;> rfl

/-- Collecting ends with one answer, in which only the result is bound, if no variable of the answer was bound while the
instances were found. -/
theorem solve_findall (machine : Machine) {terms : List Term}
    (solved : solve (fuel + 1) (List NormalForm) goal 0 (machine.barriers + 1) (noteInstance template) []
      { machine with barriers := machine.barriers + 1 } = .ok (signal, forms) after)
    (noted : forms.reverse = terms.map Term.normalize) (room : result < after.bindings.size)
    (free : after.bindings.lookup? result = none) (unbound : ∀ entry ∈ names, after.bindings.lookup? entry.2 = none)
    (barrier : Nat) :
    ∃ items after', solve (fuel + 2) (List Answer) (.findall template goal (.var result)) 0 barrier
        (noteAnswer names none) [] machine = .ok (.more, [collectedAnswer names result items]) after' ∧
      List.Forall₂ (fun term item => item.normalize = term.normalize) terms items := by
  obtain ⟨items, size, copied, variants, news⟩ := exists_copyAll terms after
  have looked (id : Nat) : (after.bindings.reserve size).lookup? id = after.bindings.lookup? id := lookup?_reserve ..
  have room' : result < (after.bindings.reserve size).size := by
    rw [size_reserve]
    exact Nat.lt_of_lt_of_le room (Nat.le_max_left _ _)
  have apart (id : Nat) (occurs : id ∈ (Term.list items).occurrences) :
      id ≠ result ∧ (after.bindings.reserve size).lookup? id = none := by
    obtain ⟨item, member, occurs⟩ := Term.mem_occurrences_list.mp occurs
    have new := news item member id occurs
    exact ⟨Nat.ne_of_gt (Nat.lt_of_lt_of_le room new), (looked id).trans (lookup?_eq_none_of_size_le new)⟩
  have unbound' (entry : String × Nat) (member : entry ∈ names) :
      (after.bindings.reserve size).lookup? entry.2 = none := (looked _).trans (unbound entry member)
  have asked : solve (fuel + 2) (List Answer) (.findall template goal (.var result)) 0 barrier (noteAnswer names none) [] =
      solveCollect (fuel + 1) (solve (fuel + 1)) template goal (.var result) 0 (noteAnswer names none) [] := by
    rw [solve_succ rfl]
    rfl
  let copies : Machine := { after with bindings := after.bindings.reserve size }
  have equated := equate_unbound copies ((looked result).trans free) (isVar_list items) fuel (noteAnswer names none) []
  rw [bind_of_ok (noteAnswer_bound copies room' unbound' apart []), Run.undoTo_bind] at equated
  refine ⟨items, { copies with bindings := (copies.bindings.bind result (.list items)).undoTo copies.bindings.mark },
    ?_, variants⟩
  rw [asked, solveCollect_of_solve solved, noted, bind_of_ok copied]
  exact equated

/-- While answers are found, their instances can be noted. -/
theorem exists_noted (ended : enumerate fuel names goal machine = .ok found after) (shown : Shown names template) :
    ∃ signal forms, solve fuel (List NormalForm) goal 0 (machine.barriers + 2) (noteInstance template) []
        { machine with barriers := machine.barriers + 2 } =
          .ok (signal, forms) { after with barriers := after.barriers + 1 } ∧
      Noted names template found.reverse forms := by
  obtain ⟨_, solved⟩ := exists_solve_of_enumerate ended
  have fuels : Footing.oneAhead.Fuels fuel fuel := .inl rfl
  have ends := solversInStep_solve fuels 0 (machine.barriers + 1) (Region.covers_everywhere goal)
    (continuesInStep_noteInstance shown) [] [] ⟨by simp, rfl⟩ { machine with barriers := machine.barriers + 1 }
    ⟨trivial, Region.confines_everywhere _⟩
  rw [solved] at ends
  generalize collected : solve fuel (List NormalForm) goal 0 (machine.barriers + 2) (noteInstance template) []
    { machine with barriers := machine.barriers + 2 } = result
  have ends : Footing.oneAhead.Ends _ _ _ result := collected ▸ ends
  cases ends with
  | @ok _ outcome _ agree holds => exact ⟨outcome.1, outcome.2, rfl, agree.values⟩
  | escaped met => exact (Escape.not_met_never met).elim

/-- A search for answers binds no variable in the end. -/
theorem blank_of_enumerate (ended : enumerate fuel names goal machine = .ok found after)
    (blank : machine.bindings.Blank) :
    machine.bindings.size ≤ after.bindings.size ∧ ∀ id < machine.bindings.size, after.bindings.lookup? id = none := by
  obtain ⟨_, solved⟩ := exists_solve_of_enumerate ended
  have descending : machine.bindings.Descending := by
    intro id other bound
    rw [blank id] at bound
    contradiction
  have leaves : Leaves False machine.bindings (Kept machine.bindings) (solve fuel (List Answer) goal 0
      (machine.barriers + 1) (noteAnswer names none) [] { machine with barriers := machine.barriers + 1 }) :=
    frames_solve fuel goal 0 _ (Frames.noteAnswer names none) [] _ descending
  rw [solved] at leaves
  have kept : machine.bindings.Kept after.bindings := leaves.1
  refine ⟨kept.size, fun id old => ?_⟩
  rw [lookup?, kept.cells id old]
  exact blank id

/-- If the answers to a goal are found, collecting gathers instances under these answers. -/
theorem enumerate_findall (blank : machine.bindings.Blank)
    (ended : enumerate fuel names goal machine = .ok found after) (shown : Shown names template)
    (room : result < machine.bindings.size) (inside : ∀ entry ∈ names', entry.2 < machine.bindings.size) :
    Gathers names template found names' result
      (enumerate (fuel + 1) names' (.findall template goal (.var result)) machine) := by
  obtain ⟨signal, forms, collected, _, noted⟩ := exists_noted ended shown
  obtain ⟨grown, free⟩ := blank_of_enumerate ended blank
  obtain ⟨fuel, rfl⟩ : ∃ rest, fuel = rest + 1 := by
    cases fuel with
    | zero => contradiction
    | succ rest => exact ⟨rest, rfl⟩
  have reversed : forms.reverse = (found.map fun answer => answer.instantiate names template).map Term.normalize := by
    simp [noted, Function.comp_def]
  -- One barrier is that of the query, the other one that of collecting.
  obtain ⟨items, after', final, variants⟩ := solve_findall { machine with barriers := machine.barriers + 1 } collected
    reversed (Nat.lt_of_lt_of_le room grown) (free result room) (fun entry member => free entry.2 (inside entry member))
    (machine.barriers + 1)
  refine ⟨items, after', ?_, List.forall₂_map_left_iff.mp variants⟩
  rw [enumerate, Run.newBarrier_bind, bind_of_ok final]
  rfl

/-! ## Queries -/

/-- Whether preparing a goal leaves it as it is: it has no loops, or loops are left for later and its own are settled. -/
def Settings.Retains (settings : Settings) (goal : Term) : Prop :=
  Loopless goal ∨ settings.expandsAhead = false ∧ ∃ findings, settleGoal goal [] = .ok (goal, findings)

theorem prepareGoal_loopless (machine : Machine) (loopless : Loopless goal) :
    prepareGoal goal machine = .ok (goal, []) machine := prepareWith_loopless machine loopless []

theorem exists_prepareGoal (machine : Machine) (retained : machine.settings.Retains goal) :
    ∃ findings, prepareGoal goal machine = .ok (goal, findings) machine := by
  rcases retained with loopless | ⟨later, findings, settled⟩
  · exact ⟨[], prepareGoal_loopless machine loopless⟩
  · refine ⟨findings, ?_⟩
    rw [prepareGoal, Run.get_bind, later, settled]
    rfl

/-- The answers to a query are those to its goal. -/
theorem answers_iff {text : String} {prepared : Machine} {read : ReadTerm} {findings : List Diagnostic}
    (reads : readTerm text machine.bindings.size = .ok read count)
    (prepares : prepareGoal read.term { machine with bindings := machine.bindings.reserve count } =
      .ok (goal, findings) prepared) :
    (∃ after, answers fuel text none machine = .ok found after) ↔
      ∃ last, enumerate fuel (shownNames read) goal { prepared with
        warnings := prepared.warnings ++ findings.map (LoopWarning.ofDiagnostic read.names) } = .ok found last := by
  have searched : answers fuel text none machine = Run.restoring (fun _ => enumerate fuel (shownNames read) goal
      { prepared with
        warnings := prepared.warnings ++ findings.map (LoopWarning.ofDiagnostic read.names) }) machine := by
    unfold answers Run.restoring
    rw [Run.supplied_bind_ok reads, bind_of_ok prepares]
    rfl
  rw [searched]
  unfold Run.restoring
  cases enumerate fuel (shownNames read) goal { prepared with
    warnings := prepared.warnings ++ findings.map (LoopWarning.ofDiagnostic read.names) } with
  | ok found' last => simp
  | error stop last => simp

/-- Machines that correspond to each other have the same answers to a goal, up to the names of variables. -/
theorem Poised.enumerate {comparison : Comparison} {left right : Machine}
    (poised : Poised comparison count left right) (excused : comparison.excused = true)
    (named : goal.Named Unreserved) (below : goal.Below count) (inside : ∀ entry ∈ names, entry.2 < count)
    (ended : Machine.enumerate fuel names goal left = .ok found after) :
    ∃ found' after', Machine.enumerate fuel names goal right = .ok found' after' ∧
      List.Forall₂ Answer.Variant found found' := by
  have prepared : Prepared count id left right goal goal := .of_named named below poised.vacant poised.vacant'
  have fuels : comparison.Fuels fuel fuel := by simp [Comparison.Fuels, Fuels]
  have agrees : Concurs comparison (fun found found' _ _ => List.Forall₂ Answer.Variant found found')
      (Machine.enumerate fuel names goal left) (Machine.enumerate fuel names goal right) := by
    unfold Machine.enumerate
    rw [← bind_assoc]
    refine (poised.solve prepared fuels (prepared.continues_noteAnswer inside none) .nil).bind ?_
    rintro ⟨_, found⟩ ⟨_, found'⟩ _ _ ⟨variants, _⟩
    exact .ok (List.forall₂_reverse_iff.mpr variants)
  rw [ended] at agrees
  generalize Machine.enumerate fuel names goal right = result at agrees ⊢
  cases agrees with
  | ok variants => exact ⟨_, _, rfl, variants⟩
  | second lacks => simp [excused] at lacks

/-- Whatever loops a goal has, a query that collects for it gathers what a search for the goal as it is written finds. -/
theorem gathers_of_enumerate (blank : machine.bindings.Blank)
    (reads : readTerm collecting machine.bindings.size = .ok ⟨.findall template goal (.var result), names'⟩ count)
    (shown : Shown names template)
    (ended : enumerate fuel names goal { machine with bindings := machine.bindings.reserve count } = .ok found after) :
    Gathers names template found (shownNames ⟨.findall template goal (.var result), names'⟩) result
      (answers (fuel + 1) collecting none machine) := by
  let reached : Machine := { machine with bindings := machine.bindings.reserve count }
  have below := readTerm_below reads
  have room : count ≤ reached.bindings.size := by
    show count ≤ (machine.bindings.reserve count).size
    rw [size_reserve]
    exact Nat.le_max_right _ _
  have inside (entry : String × Nat) (member : entry ∈ shownNames ⟨.findall template goal (.var result), names'⟩) :
      entry.2 < reached.bindings.size :=
    Nat.lt_of_lt_of_le (below.2 entry (List.mem_of_mem_filter member)) room
  have result_lt : result < reached.bindings.size :=
    Nat.lt_of_lt_of_le (below.1 result (by simp [Term.findall, Term.build])) room
  obtain ⟨items, last, collected, instances⟩ := enumerate_findall (blank.reserve count) ended shown result_lt inside
  -- The walk that looks for loops does not enter the goal.
  have loopless : Loopless (.findall template goal (.var result)) := trivial
  obtain ⟨after', answered⟩ : ∃ after', answers (fuel + 1) collecting none machine =
      .ok [collectedAnswer (shownNames ⟨.findall template goal (.var result), names'⟩) result items] after' := by
    rw [answers_iff reads (prepareGoal_loopless reached loopless), List.map_nil, List.append_nil]
    exact ⟨last, collected⟩
  exact ⟨items, after', answered, instances⟩

/-- A query that collects for a goal gathers the answers to a query for the goal, if preparing leaves the goal as it is
and its variables are the same in both. -/
theorem Machine.Loaded.gathers_of_answers {settings : Settings} {texts : List String}
    (loaded : Loaded settings texts machine) (plain : ∀ text ∈ texts, PlainProgram text) {query : String}
    {count' : Nat} (reads : readTerm query 0 = .ok ⟨goal, names⟩ count)
    (reads' : readTerm collecting 0 = .ok ⟨.findall template goal (.var result), names'⟩ count')
    (more : count ≤ count') (named : goal.Named Unreserved) (retained : machine.settings.Retains goal)
    (shown : Shown (shownNames ⟨goal, names⟩) template)
    (ended : Machine.answers fuel query none machine = .ok found after) :
    Gathers (shownNames ⟨goal, names⟩) template found (shownNames ⟨.findall template goal (.var result), names'⟩) result
      (Machine.answers (fuel + 1) collecting none machine) := by
  have idle := loaded.idle loaded plain
  have start : machine.bindings.size = 0 := by
    rw [idle.bindings]
    rfl
  have below := readTerm_below reads
  have inside (entry : String × Nat) (member : entry ∈ shownNames ⟨goal, names⟩) : entry.2 < count :=
    below.2 entry (List.mem_of_mem_filter member)
  have vacant (size : Nat) : (machine.bindings.reserve size).Vacant size := by
    rw [idle.bindings]
    exact vacant_reserve_empty size
  obtain ⟨findings, prepares⟩ := exists_prepareGoal { machine with bindings := machine.bindings.reserve count } retained
  obtain ⟨last, enumerated⟩ := (answers_iff (start.symm ▸ reads) prepares).mp ⟨after, ended⟩
  -- The goal is searched for again where more variables are taken, which makes no difference but for their names.
  have poised : Poised (idle.alike.comparison 0 true) count { machine with
      bindings := machine.bindings.reserve count
      warnings := machine.warnings ++ findings.map (LoopWarning.ofDiagnostic names) }
      { machine with bindings := machine.bindings.reserve count' } :=
    ⟨{ idle.alike.aligned rfl with }, vacant count,
      { vacant count' with room := Nat.le_trans more (vacant count').room }⟩
  obtain ⟨found', last', enumerated', variants⟩ := poised.enumerate rfl named below.1 inside enumerated
  have blank : machine.bindings.Blank := by
    rw [idle.bindings]
    exact blank_empty
  have gathers := gathers_of_enumerate blank (start.symm ▸ reads') shown enumerated'
  obtain ⟨_, _, _, complete, _⟩ := exists_noted enumerated' shown
  exact gathers.of_variants shown variants fun answer member => complete answer (List.mem_reverse.mpr member)

end

/-! ### Collecting with a loop and backtracking -/

namespace Shifting

/-- A query with a loop that declares what it shares. -/
def query : String :=
  "member(f(X, L), [f(1, _), f(2, _)]), (param(X), foreach(Y, [10, 20]), foreach(Z, L) do Z is Y + X)"

/-- The query that collects for the same goal. -/
def collecting : String :=
  "findall(f(X, L), (member(f(X, L), [f(1, _), f(2, _)]), (param(X), foreach(Y, [10, 20]), foreach(Z, L) do Z is Y + X)), All)"

/-- The goal. -/
def goal : Term := .both
  (.build "member" [.build "f" [.var 0, .var 1], .list [.build "f" [.int 1, .var 2], .build "f" [.int 2, .var 3]]])
  (.binary "do" (.both (.build "param" [.var 0])
      (.both (.build "foreach" [.var 4, .list [.int 10, .int 20]]) (.build "foreach" [.var 5, .var 1])))
    (.binary "is" (.var 5) (.binary "+" (.var 4) (.var 0))))

/-- What is collected. -/
def template : Term := .build "f" [.var 0, .var 1]

/-- The variables of the first query. -/
def names : List (String × Nat) := [("X", 0), ("L", 1), ("Y", 4), ("Z", 5)]

/-- The answers to the first query. -/
def found : List Answer := [
  ⟨[("X", .int 1), ("L", .list [.int 11, .int 21]), ("Y", .var 4), ("Z", .var 5)]⟩,
  ⟨[("X", .int 2), ("L", .list [.int 12, .int 22]), ("Y", .var 4), ("Z", .var 5)]⟩]

/-- A machine that carries out loops as it reaches them. -/
def interpreting : Machine := Machine.start { mode := .interpreted } {}

set_option maxRecDepth 20000 in
/-- The answers are found by the query, and by a search for the goal as it is written. -/
theorem run'_found :
    (answers 60 query none).run' interpreting = some found ∧
      (enumerate 60 (names ++ [("All", 6)]) goal).run' { interpreting with bindings := .reserve .empty 7 } =
        some (found.map fun answer => ⟨answer.values ++ [("All", .var 6)]⟩) ∧
      interpreting.settings = { mode := .interpreted } := by
  rw [interpreting, Machine.start, consult_eq 0 libraryText, show libraryText = String.ofList _ from rfl,
    String.toList_ofList]
  decide +kernel

theorem loaded_interpreting : Loaded { mode := .interpreted } [] interpreting := .start .empty

end Shifting

/-- Settings with which loops are compiled when they are read, compiled when they are reached, or never compiled. -/
def Settings.modes : List Settings := [{}, { expandAhead := false }, { mode := .interpreted }]

/-- What a machine that knows only the library answers to a query. -/
def Settings.asked (settings : Settings) (text : String) : Option (List Answer) :=
  (answers 31 text none).run' (Machine.start settings {})

end HornLoops
