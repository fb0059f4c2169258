import HornLoops.Proofs.Loop.StopBound
import HornLoops.Proofs.Loop.Threads
import HornLoops.Proofs.Machine.Assignment

/-!
# The course of a loop

An iterator over constants fixes how many iterations there are and which values its variables have in each of them.
This is its course. Its thread then follows the course: in each iteration the arguments have known values, matching
them and running the steps gives all variables their values, the arguments for the next iteration are the known ones
again, and the arguments that end the loop match after the last iteration and clash before.
-/

namespace HornLoops

/-- A variable with the values that it has in the iterations. -/
abbrev Track := Nat × (Nat → Term)

/-- An iterator over constants makes a number of iterations, in which its variables have certain values: the elements
of a list, the arguments of a term and their positions, the integers of a range, consecutive integers. -/
inductive LoopIterator.Course (count : Nat) : LoopIterator → List Track → Prop
  | elements (id : Nat) (items : List Term) (ground : ∀ item ∈ items, item.isGround = true)
      (length : items.length = count) :
      Course count (.forEach (.var id) (.list items)) [(id, fun k => items.getD k .nil)]
  | arguments (id : Nat) (structured : Term) (ground : structured.isGround = true)
      (length : structured.args.length = count) (fits : Fits (count + 1)) :
      Course count (.forEachArg (.var id) structured none) [(id, fun k => structured.args.getD k .nil)]
  | positions (id index : Nat) (structured : Term) (ground : structured.isGround = true)
      (length : structured.args.length = count) (fits : Fits (count + 1)) :
      Course count (.forEachArg (.var id) structured (some (.var index)))
        [(id, fun k => structured.args.getD k .nil), (index, fun k => .int (Int64.ofNat (k + 1)))]
  | range (id : Nat) (first last step : Term) (start finish stride : Int64)
      (constantFirst : first.constant? = some start) (constantLast : last.constant? = some finish)
      (constantStep : step.constant? = some stride)
      (counts : Counts start.toInt finish.toInt stride.toInt count) :
      Course count (.range (.var id) first last step) [(id, fun k => .int (indexAt start stride k))]
  | count (id : Nat) (first max : Term) (start limit : Int64) (constantFirst : first.constant? = some start)
      (constantMax : max.constant? = some limit) (counts : Counts start.toInt limit.toInt 1 count) :
      Course count (.count (.var id) first max) [(id, fun k => .int (indexAt start 1 k))]

/-- Threads that go through known states while their variables have known values. -/
structure Threads.Known (value : Nat → Nat → Term) (count : Nat) (revealed : List Nat)
    (state : Nat → List Term) (threads : Threads) : Prop where
  /-- Nothing has to be done before the first iteration. -/
  prelude : threads.prelude = []
  /-- The states have no variables. -/
  ground : ∀ k ≤ count, ∀ term ∈ state k, term.occurrences = []
  /-- The first state is that of the first call. -/
  initial : threads.initial = state 0
  /-- The last state ends the loop. -/
  terminal : threads.terminal.map (Term.subst (value count)) = state count
  /-- The values match the states. -/
  head : ∀ k < count, threads.head.map (Term.subst (value k)) = state k
  /-- Matching a state and running the steps reveals the values. -/
  chain : ∀ k < count, ∃ given, Chain (value k) revealed given threads.steps ∧
    ∀ solution : Nat → Term, threads.head.map (Term.subst solution) = state k →
      ∀ id ∈ given, solution id = value k id
  /-- The steps are about variables that are revealed. -/
  steps : ∀ goal ∈ threads.steps, ∀ id ∈ goal.occurrences, id ∈ revealed
  /-- The values lead to the next state. -/
  call : ∀ k < count, ∀ solution : Nat → Term, (∀ id ∈ revealed, solution id = value k id) →
    threads.call.map (Term.subst solution) = state (k + 1)

/-- The arguments that end the loop clash with all states before the last: after some that can be matched there is one
that has to be a constant and is not the one of the state. -/
def Threads.Clashes (count : Nat) (state : Nat → List Term) (threads : Threads) : Prop :=
  ∀ k < count, ∃ early left late early' right late' constant,
    threads.terminal = early ++ left :: late ∧ state k = early' ++ right :: late' ∧
    (∃ solution : Nat → Term, early.map (Term.subst solution) = early') ∧
    (∀ solution : Nat → Term, early.map (Term.subst solution) = early' → left.subst solution = constant) ∧
    constant.isVar = false ∧ constant.args = [] ∧ constant ≠ right

namespace Threads

variable {value : Nat → Nat → Term} {count : Nat} {revealed revealed' : List Nat}
  {state state' : Nat → List Term} {threads threads' : Threads}

theorem Clashes.append (clashes : Clashes count state threads) (threads' : Threads)
    (state' : Nat → List Term) : Clashes count (fun k => state k ++ state' k) (threads.append threads') := by
  intro k inside
  obtain ⟨early, left, late, early', right, late', constant, terminal, here, rest⟩ := clashes k inside
  refine ⟨early, left, late ++ threads'.terminal, early', right, late' ++ state' k, constant, ?_, ?_, rest⟩
  · simp [Threads.append, terminal]
  · simp [here]

/-- Nothing is known about no positions. -/
theorem Known.empty (value : Nat → Nat → Term) (count : Nat) : Known value count [] (fun _ => []) {} where
  prelude := rfl
  ground := by simp
  initial := rfl
  terminal := rfl
  head _ _ := rfl
  chain _ _ := ⟨[], .done (List.nil_subset _), by simp⟩
  steps _ member := by cases member
  call _ _ _ _ := rfl

/-- Threads side by side go through their states side by side. -/
theorem Known.append (first : Known value count revealed state threads)
    (second : Known value count revealed' state' threads') :
    Known value count (revealed ++ revealed') (fun k => state k ++ state' k) (threads.append threads') where
  prelude := by simp [Threads.append, first.prelude, second.prelude]
  ground k le term member := by
    rcases List.mem_append.mp member with member | member
    · exact first.ground k le term member
    · exact second.ground k le term member
  initial := by simp [Threads.append, first.initial, second.initial]
  terminal := by simp [Threads.append, first.terminal, second.terminal]
  head k inside := by simp [Threads.append, first.head k inside, second.head k inside]
  chain k inside := by
    obtain ⟨given, chain, reveals⟩ := first.chain k inside
    obtain ⟨given', chain', reveals'⟩ := second.chain k inside
    refine ⟨given ++ given', chain.append chain', fun solution same id member => ?_⟩
    have length : threads.head.length = (state k).length := by
      simpa using congrArg List.length (first.head k inside)
    rw [Threads.append, List.map_append] at same
    obtain ⟨same, same'⟩ := List.append_inj same (by simpa using length)
    rcases List.mem_append.mp member with member | member
    · exact reveals solution same id member
    · exact reveals' solution same' id member
  steps goal member id occurs := by
    rcases List.mem_append.mp member with member | member
    · exact List.mem_append_left _ (first.steps goal member id occurs)
    · exact List.mem_append_right _ (second.steps goal member id occurs)
  call k inside solution valued := by
    have here := first.call k inside solution fun id member => valued id (List.mem_append_left _ member)
    have there := second.call k inside solution fun id member => valued id (List.mem_append_right _ member)
    simp [Threads.append, here, there]

end Threads

/-! ## Threads that follow a course -/

/-- Values for variables agree with tracks. -/
def Agrees (value : Nat → Nat → Term) (tracks : List Track) : Prop :=
  ∀ track ∈ tracks, ∀ k, value k track.1 = track.2 k

/-- A thread follows a course: it has inner variables of its own, taken from a number on, and when these and the variables
of the course have their values, the thread goes through known states. Unless it is empty it clashes before the last. -/
def Threads.Follows (count : Nat) (course : List Track) (next after : Nat) (empty : Prop) (threads : Threads) :
    Prop :=
  next ≤ after ∧ ∃ inner revealed state, (∀ track ∈ inner, next ≤ track.1 ∧ track.1 < after) ∧
    (inner.map Prod.fst).Nodup ∧ (∀ track ∈ course, track.1 ∈ revealed) ∧
    revealed ⊆ (course ++ inner).map Prod.fst ∧ (empty ∨ threads.Clashes count state) ∧
    ∀ value, Agrees value (course ++ inner) → threads.Known value count revealed state

variable {count next after k : Nat} {course : List Track} {threads : Threads} {items : List Term} {first : Term}
  {start : Int64}

theorem Threads.Follows.weaken (follows : threads.Follows count course next after False) (empty : Prop) :
    threads.Follows count course next after empty := by
  obtain ⟨le, inner, revealed, state, range, distinct, covers, covered, clashes, known⟩ := follows
  exact ⟨le, inner, revealed, state, range, distinct, covers, covered, .inr (clashes.resolve_left id), known⟩

/-- Tracks of different variables, some before others. -/
theorem Track.nodup_append {front back : List Track} (distinct : (front.map Prod.fst).Nodup)
    (distinct' : (back.map Prod.fst).Nodup) (before : ∀ track ∈ front, ∀ track' ∈ back, track.1 < track'.1) :
    ((front ++ back).map Prod.fst).Nodup := by
  rw [List.map_append, List.nodup_append]
  refine ⟨distinct, distinct', fun id member id' member' same => ?_⟩
  obtain ⟨track, inside, rfl⟩ := List.mem_map.mp member
  obtain ⟨track', inside', rfl⟩ := List.mem_map.mp member'
  exact Nat.ne_of_lt (before track inside track' inside') same

theorem Term.occurrences_of_isGround {term : Term} (ground : term.isGround = true) : term.occurrences = [] := by
  simpa [isGround] using ground

theorem Term.list_drop (inside : k < items.length) :
    Term.list (items.drop k) = .cons (items.getD k .nil) (.list (items.drop (k + 1))) := by
  rw [List.drop_eq_getElem_cons inside, List.getD_eq_getElem _ _ inside]
  rfl

open LoopIterator

/-- The thread of an iterator over a list follows its elements. -/
theorem follows_elements (id : Nat) (ground : ∀ item ∈ items, item.isGround = true) (length : items.length = count)
    (threaded : threadElements (.var id) (.list items) next = .ok threads after) :
    threads.Follows count [(id, fun k => items.getD k .nil)] next after False := by
  obtain ⟨rfl, rfl⟩ := threaded
  refine ⟨Nat.le_succ next, [(next, fun k => .list (items.drop (k + 1)))], [id, next],
    fun k => [.list (items.drop k)], by simp, by simp, by simp, by simp, .inr fun k inside => ?_,
    fun value valued => ?_⟩
  · refine ⟨[], .nil, [], [], _, [], .nil, rfl, rfl, ⟨.var, rfl⟩, fun _ _ => rfl, rfl, rfl, ?_⟩
    simp [Term.list_drop (length.symm ▸ inside), Term.cons, Term.binary, Term.nil]
  simp only [Agrees, List.cons_append, List.nil_append, List.forall_mem_cons, List.not_mem_nil, false_implies,
    implies_true, and_true] at valued
  obtain ⟨valuedElement, valuedTail⟩ := valued
  refine ⟨rfl, ?_, rfl, ?_, ?_, ?_, by simp, ?_⟩
  · intro k _ term member
    rw [List.mem_singleton.mp member]
    exact Term.occurrences_list fun item inside =>
      Term.occurrences_of_isGround (ground item (List.mem_of_mem_drop inside))
  · simp [← length, Term.list, Term.listBefore, Term.nil]
  · intro k inside
    simp [Term.list_drop (length.symm ▸ inside), Term.cons, Term.binary, valuedElement, valuedTail]
  · intro k inside
    refine ⟨[id, next], .done (List.Subset.refl _), fun solution same => ?_⟩
    simpa [Term.list_drop (length.symm ▸ inside), Term.cons, Term.binary, valuedElement, valuedTail] using same
  · intro k inside solution valued
    simpa [valuedTail] using valued next (by simp)

/-- A counter goes through its integers if its variables have the one of the iteration and the one after it. -/
theorem known_closedCounter {value : Nat → Nat → Term} {now later : Nat} {stride : Int64}
    (fits : Fits (start.toInt + count * stride.toInt)) (valuedNow : ∀ k, value k now = .int (indexAt start stride k))
    (valuedLater : ∀ k, value k later = .int (indexAt start stride (k + 1))) :
    (closedCounter (.var now) (.var later) start (indexAt start stride count) stride).Known value count [later, now]
      fun k => [.int (indexAt start stride k)] where
  prelude := rfl
  ground := by simp
  initial := by simp [closedCounter, indexAt]
  terminal := rfl
  head k inside := by simp [closedCounter, valuedNow]
  chain k inside := by
    refine ⟨[now], .step (reveals_evaluate (valuedNow k) (valuedLater k) (toInt_indexAt_succ fits inside))
      (.done (List.Subset.refl _)), fun solution same => ?_⟩
    simpa [closedCounter, valuedNow] using same
  steps := by simp [closedCounter, Goal.evaluate, Term.binary]
  call k inside solution valued := by simpa [closedCounter, valuedLater] using valued later (by simp)

/-- A counter that moves comes to its last integer at the end only. -/
theorem clashes_closedCounter (now later : Term) {stride : Int64} (moves : stride.toInt ≠ 0)
    (fits : Fits (start.toInt + count * stride.toInt)) :
    (closedCounter now later start (indexAt start stride count) stride).Clashes count
      fun k => [.int (indexAt start stride k)] := by
  intro k inside
  refine ⟨[], _, [], [], _, [], _, rfl, rfl, ⟨.var, rfl⟩, fun _ _ => rfl, rfl, rfl, ?_⟩
  simpa using indexAt_ne moves fits inside

/-- The thread of an iterator over a range with constant bounds follows its integers. -/
theorem follows_range (id next : Nat) {finish stride stop : Int64} (stops : stopBound start finish stride = .ok stop)
    (counts : Counts start.toInt finish.toInt stride.toInt count) :
    (closedCounter (.var id) (.var next) start stop stride).Follows count [(id, fun k => .int (indexAt start stride k))]
      next (next + 1) False := by
  obtain ⟨moves, rfl, fits⟩ := stopBound_eq stops counts
  refine ⟨Nat.le_succ next, [(next, fun k => .int (indexAt start stride (k + 1)))], [next, id], _, by simp, by simp,
    by simp, by simp, .inr (clashes_closedCounter _ _ moves fits), fun value valued => ?_⟩
  exact known_closedCounter fits (valued _ (List.mem_cons_self ..)) (valued _ (List.mem_cons_of_mem _ (.head _)))

/-- The thread of a counter with constant bounds follows its integers. -/
theorem follows_count (id next : Nat) {before limit : Int64} (found : word? (start.toInt - 1) = some before)
    (counts : Counts start.toInt limit.toInt 1 count) :
    (closedCounter (.var next) (.var id) before (if before.toInt ≤ limit.toInt then limit else before) 1).Follows count
      [(id, fun k => .int (indexAt start 1 k))] next (next + 1) False := by
  rw [word?_eq_some_iff] at found
  obtain ⟨past, reached⟩ := counts.upward (by decide)
  have one : (1 : Int64).toInt = 1 := rfl
  have final : (if before.toInt ≤ limit.toInt then limit else before).toInt =
      before.toInt + count * (1 : Int64).toInt := by
    rw [one]
    split <;> omega
  have fits : Fits (before.toInt + count * (1 : Int64).toInt) := final ▸ fits_toInt _
  have last : (if before.toInt ≤ limit.toInt then limit else before) = indexAt before 1 count := by
    rw [← Int64.toInt_inj, final, toInt_indexAt fits]
  have shifted : ∀ k, indexAt start 1 k = indexAt before 1 (k + 1) := by
    intro k
    rw [indexAt, indexAt, one]
    congr 1
    omega
  rw [last]
  refine ⟨Nat.le_succ next, [(next, fun k => .int (indexAt before 1 k))], [id, next], _, by simp, by simp, by simp,
    by simp, .inr (clashes_closedCounter _ _ (by decide) fits), fun value valued => ?_⟩
  refine known_closedCounter fits (valued _ (List.mem_cons_of_mem _ (.head _))) fun k => ?_
  rw [← shifted]
  exact valued _ (List.mem_cons_self ..) k

/-- The positions of arguments as words. -/
theorem toInt_position (fits : Fits (count + 1)) (le : k ≤ count) : (Int64.ofNat (k + 1)).toInt = k + 1 := by
  have upper := fits.2
  rw [Int64.toInt_ofNat_of_lt (by omega)]
  omega

/-- The thread of an iterator over arguments follows the arguments and, if they are asked for, their positions. -/
theorem follows_arguments (id next : Nat) {structured : Term} (ground : structured.isGround = true)
    (length : structured.args.length = count) (fits : Fits (count + 1)) (index : Option Nat) :
    (argumentThreads (.var id) structured (index.map .var) (.int (Int64.ofNat (structured.args.length + 1))) []
      next).Follows count ((id, fun k => structured.args.getD k .nil) ::
        (index.map fun index => (index, fun k => .int (Int64.ofNat (k + 1)))).toList) next (next + 6) False := by
  unfold argumentThreads
  refine ⟨by omega, [(next, fun _ => .int (Int64.ofNat (count + 1))), (next + 1, fun _ => structured),
      (next + 2, fun _ => structured), (next + 3, fun k => .int (Int64.ofNat (k + 1))),
      (next + 4, fun k => .int (Int64.ofNat (k + 1 + 1))),
      (next + 5, fun _ => .int (Int64.ofNat (count + 1)))],
    id :: index.toList ++ [next + 4, next + 2, next + 3, next + 5],
    fun k => [structured, .int (Int64.ofNat (k + 1)), .int (Int64.ofNat (count + 1))],
    ?_, by simp, by cases index <;> simp, by cases index <;> simp, .inr fun k inside => ?_,
    fun value valued => ?_⟩
  · simp only [List.forall_mem_cons, List.not_mem_nil, false_implies, implies_true, and_true]
    omega
  · refine ⟨[.var (next + 1), .var next], .var next, [], [structured, .int (Int64.ofNat (k + 1))], _, [],
      .int (Int64.ofNat (k + 1)), rfl, rfl,
      ⟨fun id => if id = next then .int (Int64.ofNat (k + 1)) else structured, by simp⟩, ?_, rfl, rfl, ?_⟩
    · intro solution same
      simpa using (List.cons_eq_cons.mp (List.cons_eq_cons.mp same).2).1
    · intro same
      have exact := congrArg Int64.toInt (Term.int.inj same)
      rw [toInt_position fits (Nat.le_of_lt inside), toInt_position fits (Nat.le_refl _)] at exact
      omega
  simp only [Agrees, List.cons_append, List.forall_mem_cons, List.forall_mem_append, List.not_mem_nil, false_implies,
    implies_true, and_true] at valued
  obtain ⟨valuedElement, valuedIndex, valuedLast, valuedFinished, valuedCurrent, valuedPosition, valuedNext,
    valuedBound⟩ := valued
  have limit : structured.args.length + 1 = count + 1 := by omega
  have arguments : ∀ k < count, Chain (value k)
      (id :: index.toList ++ [next + 4, next + 2, next + 3, next + 5])
      [next + 2, next + 3, next + 5]
      (.build "arg" [.var (next + 3), .var (next + 2), .var id] ::
        (index.map Term.var).toList.map (fun position => Term.binary "=" position (.var (next + 3))) ++
        [Goal.evaluate (.var (next + 4)) (Goal.plus (.var (next + 3)) 1)]) := by
    intro k inside
    have position := toInt_position fits (Nat.le_of_lt inside)
    have found : structured.args[(Int64.ofNat (k + 1)).toInt.toNat - 1]? = some (structured.args.getD k .nil) := by
      have there : k < structured.args.length := length.symm ▸ inside
      have here : (Int64.ofNat (k + 1)).toInt.toNat - 1 = k := by omega
      rw [here, List.getElem?_eq_getElem there, List.getD_eq_getElem _ _ there]
    have increment : (Int64.ofNat (k + 1 + 1)).toInt = (Int64.ofNat (k + 1)).toInt + (1 : Int64).toInt := by
      have one : (1 : Int64).toInt = 1 := rfl
      rw [toInt_position fits (Nat.succ_le_of_lt inside), position, one]
      omega
    have argument := reveals_argument (valuedPosition k) (valuedCurrent k) (valuedElement k) (by omega) found
    have evaluation := reveals_evaluate (valuedPosition k) (valuedNext k) increment
    refine .step (argument.mono (by simp)) ?_
    cases index with
    | none => exact .step (evaluation.mono (by simp)) (.done (by simp))
    | some index =>
      have same : value k index = value k (next + 3) := by
        rw [valuedPosition]
        exact valuedIndex _ (List.mem_singleton.mpr rfl) k
      exact .step ((reveals_equal same).mono (by simp)) (.step (evaluation.mono (by simp)) (.done (by simp)))
  refine ⟨rfl, ?_, ?_, ?_, ?_, ?_, ?_, ?_⟩
  · intro k _ term member
    simp only [List.mem_cons, List.not_mem_nil, or_false] at member
    rcases member with rfl | rfl | rfl
    · exact Term.occurrences_of_isGround ground
    · rfl
    · rfl
  · simp [limit]
  · simp [valuedLast, valuedFinished]
  · intro k inside
    simp [valuedCurrent, valuedPosition, valuedBound]
  · intro k inside
    refine ⟨_, arguments k inside, fun solution same => ?_⟩
    simpa [valuedCurrent, valuedPosition, valuedBound] using same
  · cases index <;> simp [Goal.evaluate, Term.binary]
  · intro k inside solution valued
    simp only [List.cons_append, List.forall_mem_cons, List.forall_mem_append] at valued
    obtain ⟨_, _, next', current, _, bound, _⟩ := valued
    simp [current, next', bound, valuedCurrent, valuedNext, valuedBound]

/-- The thread of an iterator over constants follows its course. -/
theorem LoopIterator.Course.follows {iterator : LoopIterator} (runs : iterator.Course count course)
    (threaded : iterator.threads next = .ok threads after) : threads.Follows count course next after False := by
  have draws := Draws.of_threads threaded
  cases runs with
  | elements id items ground length => exact follows_elements id ground length threaded
  | arguments id structured ground length fits =>
    cases draws with
    | arguments => exact follows_arguments id next ground length fits none
    | unknownArguments => simp [Term.isGround] at ground
  | positions id index structured ground length fits =>
    cases draws with
    | arguments => exact follows_arguments id next ground length fits (some index)
    | unknownArguments => simp [Term.isGround] at ground
  | range id first last step start finish stride constantFirst constantLast constantStep counts =>
    cases draws with
    | range _ begins ends steps _ stops =>
      obtain rfl := Option.some.inj (constantFirst.symm.trans begins)
      obtain rfl := Option.some.inj (constantLast.symm.trans ends)
      obtain rfl := Option.some.inj (constantStep.symm.trans steps)
      exact follows_range id next stops counts
    | rangeTo | rangeFrom => simp_all
  | count id first max start limit constantFirst constantMax counts =>
    cases draws with
    | count _ begins before ends =>
      obtain rfl := Option.some.inj (constantFirst.symm.trans begins)
      obtain rfl := Option.some.inj (constantMax.symm.trans ends)
      exact follows_count id next before counts
    | countTo | countFrom => simp_all

namespace Threads

theorem append_assoc (first second third : Threads) :
    (first.append second).append third = first.append (second.append third) := by
  simp [append]

theorem empty_append (threads : Threads) : append {} threads = threads := rfl

/-- Threads of iterators side by side are taken one after the other. -/
theorem ofIterators_append (front back : List LoopIterator) :
    ofIterators (front ++ back) = do
      let first ← ofIterators front
      let second ← ofIterators back
      return first.append second := by
  induction front with
  | nil => simp only [List.nil_append, ofIterators, pure_bind, empty_append, bind_pure]
  | cons iterator front ih =>
    simp only [List.cons_append, ofIterators, ih, bind_assoc, pure_bind, append_assoc]

/-- Threads side by side follow their courses side by side. -/
theorem Follows.append {count : Nat} {course course' : List Track} {next between after : Nat} {threads threads' : Threads}
    {empty : Prop} (first : threads.Follows count course next between False)
    (second : threads'.Follows count course' between after empty) :
    (threads.append threads').Follows count (course ++ course') next after False := by
  obtain ⟨le, inner, revealed, state, range, distinct, covers, covered, clashes, known⟩ := first
  obtain ⟨le', inner', revealed', state', range', distinct', covers', covered', _, known'⟩ := second
  have part : course ++ inner ⊆ course ++ course' ++ (inner ++ inner') := by
    intro track member
    simp only [List.mem_append] at member ⊢
    tauto
  have part' : course' ++ inner' ⊆ course ++ course' ++ (inner ++ inner') := by
    intro track member
    simp only [List.mem_append] at member ⊢
    tauto
  refine ⟨Nat.le_trans le le', inner ++ inner', revealed ++ revealed', fun k => state k ++ state' k, ?_,
    Track.nodup_append distinct distinct' fun track member track' member' => ?_, ?_, ?_,
    .inr ((clashes.resolve_left id).append threads' state'), fun value agrees => ?_⟩
  · intro track member
    rcases List.mem_append.mp member with member | member
    · have := range track member
      omega
    · have := range' track member
      omega
  · exact Nat.lt_of_lt_of_le (range track member).2 (range' track' member').1
  · intro track member
    rcases List.mem_append.mp member with member | member
    · exact List.mem_append_left _ (covers track member)
    · exact List.mem_append_right _ (covers' track member)
  · exact List.append_subset.mpr ⟨List.Subset.trans covered (List.map_subset _ part),
      List.Subset.trans covered' (List.map_subset _ part')⟩
  · exact (known value fun track member => agrees track (part member)).append
      (known' value fun track member => agrees track (part' member))

/-- The threads of iterators over constants follow their courses. -/
theorem follows_ofIterators {count : Nat} {iterators : List LoopIterator} {courses : List (List Track)}
    (runs : List.Forall₂ (LoopIterator.Course count) iterators courses) {next after : Nat} {threads : Threads}
    (threaded : ofIterators iterators next = .ok threads after) :
    threads.Follows count courses.flatten next after (iterators = []) := by
  induction runs generalizing next threads with
  | nil =>
    obtain ⟨rfl, rfl⟩ := threaded
    exact ⟨Nat.le_refl _, [], [], fun _ => [], by simp, by simp, by simp, by simp, .inl rfl,
      fun value _ => .empty value count⟩
  | @cons iterator course iterators courses run runs ih =>
    simp only [ofIterators, Bind.bind, EStateM.bind] at threaded
    cases first : iterator.threads next with
    | error error between =>
      rw [first] at threaded
      contradiction
    | ok thread between =>
      simp only [first] at threaded
      cases second : ofIterators iterators between with
      | error error between' =>
        rw [second] at threaded
        contradiction
      | ok others between' =>
        simp only [second] at threaded
        obtain ⟨rfl, rfl⟩ := threaded
        exact ((run.follows first).append (ih second)).weaken _

end Threads

end HornLoops
