import HornLoops.Proofs.Loop.Course
import HornLoops.Proofs.Machine.Queries

/-!
# Loops in lock-step

A loop whose iterators all follow courses of the same length collects the instances of a term in an open list. At the
start of a round the arguments have their known states, and the list has the instances so far before its open end. The
open end and all other variables around the loop are still free. So a query that is such a loop with the body `true` has
one answer, however loops are carried out: the variable is the list of the instances, one for each iteration, and all
other variables are unbound.
-/

namespace HornLoops

open Machine Bindings

/-! ## Rounds -/

/-- The thread that collects instances of a term in an open list. -/
def collector (element : Term) (out tail : Nat) : Threads :=
  { initial := [.var out], terminal := [.nil], head := [.cons element (.var tail)], call := [.var tail] }

/-- The collecting thread between others. -/
def collecting (left right : Threads) (element : Term) (out tail : Nat) : Threads :=
  left.append ((collector element out tail).append right)

/-- A collecting thread between threads that follow courses, when the open end of the list may be anything. -/
structure Collects (count : Nat) (element : Term) (tail : Nat) (left right : Threads)
    (revealed revealed' : List Nat) (state state' : Nat → List Term) (value : Term → Nat → Nat → Term)
    (instances : Nat → Term) : Prop where
  /-- The threads in front follow their courses. -/
  knownLeft : ∀ rest, left.Known (value rest) count revealed state
  /-- The threads behind follow their courses. -/
  knownRight : ∀ rest, right.Known (value rest) count revealed' state'
  /-- The open end has any value. -/
  openEnd : ∀ rest k, value rest k tail = rest
  /-- The other values do not depend on it. -/
  stable : ∀ rest k, ∀ id ∈ revealed ++ revealed', value rest k id = value .nil k id
  /-- The variables of the term are those of the courses. -/
  covers : ∀ id ∈ element.occurrences, id ∈ revealed ++ revealed'
  /-- The instances of the term. -/
  collected : ∀ k < count, element.subst (value .nil k) = instances k
  /-- Some thread clashes before the end, and only the collecting one may stand in front of it. -/
  clashes : left.Clashes count state ∨ left = {} ∧ right.Clashes count state'

/-- What the arguments of a round are: the states of the threads, and the open end of the list after the instances so
far. -/
def Gathered (state state' : Nat → List Term) (instances : Nat → Term) (out k : Nat) (outer : Nat → Term)
    (values : List Term) : Prop :=
  ∃ rest, values = state k ++ rest :: state' k ∧ outer out = .listBefore ((List.range k).map instances) rest

theorem Term.map_subst_ground {terms : List Term} (ground : ∀ term ∈ terms, term.occurrences = [])
    (solution : Nat → Term) : terms.map (Term.subst solution) = terms := by
  conv_rhs => rw [← List.map_id terms]
  refine List.map_congr_left fun term member => Term.subst_eq_self fun id occurs => ?_
  rw [ground term member] at occurs
  cases occurs

variable {count : Nat} {tracks course : List Track} {iterator : LoopIterator}

/-- The arguments that end a loop clash with states of threads that clash, whatever is around them. -/
theorem Threads.Clashes.clash {state : Nat → List Term} {threads : Threads} (clashes : threads.Clashes count state)
    {k : Nat} (inside : k < count) (ground : ∀ term ∈ state k, term.occurrences = []) {front : List Term}
    (closed : ∀ term ∈ front, term.occurrences = []) (back : List Term) {relation : (Nat → Term) → List Term → Prop}
    (possible : ∃ outer back', relation outer (front ++ state k ++ back'))
    (shape : ∀ outer values, relation outer values → ∃ front' back', front'.length = front.length ∧
      values = front' ++ state k ++ back') : Clash relation (front ++ threads.terminal ++ back) := by
  obtain ⟨early, left, late, early', right, late', constant, terminal, here, ⟨solution, matched⟩, forced, solid, simple,
    differ⟩ := clashes k inside
  have length : early.length = early'.length := by simpa using congrArg List.length matched
  have solid' : right.isVar = false := by
    have closed := ground right (by simp [here])
    cases right with
    | var id => simp at closed
    | _ => rfl
  have cut (front' back' : List Term) :
      front' ++ state k ++ back' = (front' ++ early') ++ right :: (late' ++ back') := by
    simp [here]
  refine ⟨front ++ early, left, late ++ back, by simp [terminal], ?_, fun outer value values related same => ?_⟩
  · obtain ⟨outer, back', related⟩ := possible
    refine ⟨outer, solution, _, related, ?_⟩
    rw [cut, List.take_left' (by simp [length]), List.map_append, Term.map_subst_ground closed, matched]
  · obtain ⟨front', back', lengths, rfl⟩ := shape outer values related
    rw [cut, List.take_left' (by simp [lengths, length]), List.map_append] at same
    have valued := forced value (List.append_inj same (by simp [lengths])).2
    refine ⟨right, ?_, ?_⟩
    · rw [cut, List.getElem?_append_right (by simp [lengths, length])]
      simp [lengths, length]
    · rw [valued]
      exact ⟨solid, solid', differ, .inl simple⟩

section

variable {count : Nat} {element : Term} {out tail : Nat} {left right : Threads} {revealed revealed' : List Nat}
  {state state' : Nat → List Term} {value : Term → Nat → Nat → Term} {instances : Nat → Term} {limit k : Nat}

variable {outer found : Nat → Term}

theorem gathered_append {front back : List Term} {last : Term} (length : front.length = (state k).length) :
    Gathered state state' instances out k outer (front ++ last :: back) ↔
      front = state k ∧ back = state' k ∧ outer out = .listBefore ((List.range k).map instances) last := by
  constructor
  · rintro ⟨rest, same, list⟩
    obtain ⟨here, others⟩ := List.append_inj same length
    obtain ⟨rfl, there⟩ := List.cons.inj others
    exact ⟨here, there, list⟩
  · rintro ⟨rfl, rfl, list⟩
    exact ⟨last, rfl, list⟩

variable (collects : Collects count element tail left right revealed revealed' state state' value instances)
include collects

/-- Before the end the arguments that end the loop do not match. -/
theorem Collects.clash (inside : k < count) :
    Clash (Gathered state state' instances out k) (collecting left right element out tail).terminal := by
  let outer (_ : Nat) : Term := .listBefore ((List.range k).map instances) .nil
  have possible : Gathered state state' instances out k outer (state k ++ .nil :: state' k) := ⟨.nil, rfl, rfl⟩
  rcases collects.clashes with clashes | ⟨rfl, clashes⟩
  · have ground := (collects.knownLeft .nil).ground k (Nat.le_of_lt inside)
    refine clashes.clash inside ground (List.forall_mem_nil _) (.nil :: right.terminal) ⟨outer, _, possible⟩ ?_
    rintro outer _ ⟨rest, rfl, _⟩
    exact ⟨[], rest :: state' k, rfl, rfl⟩
  · have nothing : state k = [] := ((collects.knownLeft .nil).head k inside).symm
    have ground := (collects.knownRight .nil).ground k (Nat.le_of_lt inside)
    have closed : ∀ term ∈ [Term.nil], term.occurrences = [] := List.forall_mem_singleton.mpr rfl
    rw [nothing] at possible
    have whole := clashes.clash inside ground closed [] ⟨outer, [], by simpa using possible⟩ fun outer values => ?_
    · simpa [collecting, collector, Threads.append] using whole
    rintro ⟨rest, rfl, _⟩
    exact ⟨[rest], [], rfl, by simp [nothing]⟩

/-- The heads of an iteration match. -/
theorem Collects.gathered_head (inside : k < count) :
    Gathered state state' instances out k outer
        ((collecting left right element out tail).head.map (Term.subst found)) ↔
      left.head.map (Term.subst found) = state k ∧ right.head.map (Term.subst found) = state' k ∧
        outer out = .listBefore ((List.range k).map instances) (.cons (element.subst found) (found tail)) := by
  have shape : (collecting left right element out tail).head.map (Term.subst found) =
      left.head.map (Term.subst found) ++ .cons (element.subst found) (found tail) :: right.head.map (Term.subst found) := by
    simp [collecting, collector, Threads.append, Term.cons, Term.binary]
  rw [shape, gathered_append]
  simpa using congrArg List.length ((collects.knownLeft .nil).head k inside)

/-- The instance of the term in an iteration. -/
theorem Collects.subst_element (inside : k < count)
    (valued : ∀ id ∈ revealed ++ revealed', found id = value .nil k id) : element.subst found = instances k := by
  rw [← collects.collected k inside]
  exact Term.subst_congr fun id occurs => valued id (collects.covers id occurs)

/-- The values of the variables of an iteration, for any rest of the list. -/
theorem Collects.gathered_value (inside : k < count) {rest : Term}
    (list : outer out = .listBefore ((List.range (k + 1)).map instances) rest) :
    Gathered state state' instances out k outer
      ((collecting left right element out tail).head.map (Term.subst (value rest k))) := by
  rw [collects.gathered_head inside]
  refine ⟨(collects.knownLeft rest).head k inside, (collects.knownRight rest).head k inside, ?_⟩
  rw [list, collects.subst_element inside (collects.stable rest k), collects.openEnd, List.range_succ, List.map_append]
  simp [Term.listBefore]

/-- The arguments of the next round. -/
theorem Collects.map_subst_call (inside : k < count)
    (valued : ∀ id ∈ revealed ++ revealed', found id = value .nil k id) :
    (collecting left right element out tail).call.map (Term.subst found) =
      state (k + 1) ++ found tail :: state' (k + 1) := by
  have front := (collects.knownLeft .nil).call k inside found fun id member => valued id (List.mem_append_left _ member)
  have back := (collects.knownRight .nil).call k inside found fun id member => valued id (List.mem_append_right _ member)
  simp [collecting, collector, Threads.append, front, back]

/-- The steps of a collecting loop are about variables that are revealed. -/
theorem Collects.mem_revealed {goal : Term} (member : goal ∈ left.steps ++ right.steps) {id : Nat}
    (occurs : id ∈ goal.occurrences) : id ∈ revealed ++ revealed' := by
  rcases List.mem_append.mp member with member | member
  · exact List.mem_append_left _ ((collects.knownLeft .nil).steps goal member id occurs)
  · exact List.mem_append_right _ ((collects.knownRight .nil).steps goal member id occurs)

/-- At the start nothing has been collected. -/
theorem Collects.relates_initial (below : out < limit) {names : List Nat} {number : Nat → Nat} {begun : Bindings}
    (scope : begun.Scope limit names number (Asked limit []))
    (named : ∀ term ∈ (collecting left right element out tail).initial, ∀ id ∈ term.occurrences, id ∈ names) :
    begun.Relates limit ((collecting left right element out tail).initial.map (Term.rename number))
      (Gathered state state' instances out 0) := by
  have front := (collects.knownLeft .nil).initial
  have back := (collects.knownRight .nil).initial
  have ground := (collects.knownLeft .nil).ground 0 (Nat.zero_le count)
  have ground' := (collects.knownRight .nil).ground 0 (Nat.zero_le count)
  have shape (found : Nat → Term) : (collecting left right element out tail).initial.map (Term.subst found) =
      state 0 ++ found out :: state' 0 := by
    simp [collecting, collector, Threads.append, front, back, Term.map_subst_ground ground, Term.map_subst_ground ground']
  refine scope.relates named ?_ ?_
  · intro outer found asked
    exact ⟨found out, shape found, (asked.1 out below).symm⟩
  · rintro outer _ ⟨rest, rfl, list⟩
    exact ⟨outer, ⟨fun _ _ => rfl, List.forall_mem_nil _⟩, by rw [shape, list]; rfl⟩

variable {invariant : Machine → Prop} (steady : Steady invariant) {way : LoopWay}
  (ready : way.Ready invariant (collecting left right element out tail) .truth) {σ : Type} {depth : Nat}
  {bindings : Bindings} {args : List Term} (arity : args.length = (collecting left right element out tail).arity)
include steady ready arity

/-- An iteration adds an instance to the list. -/
theorem Collects.presents_next (aligned : (collecting left right element out tail).Aligned) (inside : k < count)
    (admits : ∀ machine, invariant machine → machine.Admits depth)
    (relates : bindings.Relates limit args (Gathered state state' instances out k))
    {solutions : List (Bindings → Prop)} {fault : Option RunError}
    (further : ∀ (between : Bindings) (args' : List Term),
      args'.length = (collecting left right element out tail).arity →
      between.Relates limit args' (Gathered state state' instances out (k + 1)) →
      way.Presents invariant σ (collecting left right element out tail) .truth args' (depth + 1) between solutions
        fault) :
    way.Presents invariant σ (collecting left right element out tail) .truth args depth bindings solutions fault := by
  let threads := collecting left right element out tail
  let outer (_ : Nat) : Term := .listBefore ((List.range (k + 1)).map instances) .nil
  have possible : Gathered state state' instances out k outer (threads.head.map (Term.subst (value .nil k))) :=
    collects.gathered_value inside rfl
  obtain ⟨begun, scope, goes, _⟩ :=
    LoopWay.goes (σ := σ) steady admits ready arity relates (collects.clash inside) possible
  -- The heads reveal what the steps of both sides start from, so that these can be run.
  obtain ⟨given, chain, reveals⟩ := (collects.knownLeft .nil).chain k inside
  obtain ⟨given', chain', reveals'⟩ := (collects.knownRight .nil).chain k inside
  have fixed (outer found : Nat → Term)
      (holds : Gathered state state' instances out k outer (threads.head.map (Term.subst found))) :
      ∀ id ∈ given ++ given', found id = value .nil k id := by
    obtain ⟨front, back, _⟩ := (collects.gathered_head inside).mp holds
    intro id member
    rcases List.mem_append.mp member with member | member
    · exact reveals found front id member
    · exact reveals' found back id member
  have named : ∀ goal ∈ left.steps ++ right.steps, ∀ id ∈ goal.occurrences, id ∈ threads.stepNames .truth :=
    fun goal member id occurs =>
      Threads.mem_stepNames (List.mem_append_left _ (List.mem_append_right _ member)) occurs
  obtain ⟨between, runs, scope'⟩ := (chain.append chain').exists_runs steady scope fixed possible σ (depth + 1) named
    (fun goal member id occurs => collects.mem_revealed member occurs) fun _ _ => rfl
  refine goes between solutions fault ?_ (further between _ ?_ (scope'.relates ?_ ?_ ?_))
  · rw [List.map_append]
    exact runs.append (.skip (.done between))
  · rw [List.length_map, aligned.2.2]
  · exact fun term member id occurs => Threads.mem_stepNames (List.mem_append_right _ member) occurs
  · rintro outer found ⟨holds, valued⟩
    obtain ⟨_, _, list⟩ := (collects.gathered_head inside).mp holds
    refine ⟨found tail, collects.map_subst_call inside valued, ?_⟩
    rw [list, collects.subst_element inside valued, List.range_succ, List.map_append]
    simp [Term.listBefore]
  · rintro outer _ ⟨rest, rfl, list⟩
    refine ⟨value rest k, ⟨collects.gathered_value inside list, collects.stable rest k⟩, ?_⟩
    rw [collects.map_subst_call inside (collects.stable rest k), collects.openEnd]

/-- After the last iteration the list is closed. -/
theorem Collects.presents_last (admits : ∀ machine, invariant machine → machine.Admits depth)
    (relates : bindings.Relates limit args (Gathered state state' instances out count)) :
    way.Presents invariant σ (collecting left right element out tail) .truth args depth bindings
      [fun after => after.Tells limit (Known [(out, .list ((List.range count).map instances))])] none := by
  have front := (collects.knownLeft .nil).terminal
  have back := (collects.knownRight .nil).terminal
  have shape (found : Nat → Term) : (collecting left right element out tail).terminal.map (Term.subst found) =
      left.terminal.map (Term.subst found) ++ .nil :: right.terminal.map (Term.subst found) := by
    simp [collecting, collector, Threads.append]
  have length (found : Nat → Term) : (left.terminal.map (Term.subst found)).length = (state count).length := by
    simpa using congrArg List.length front
  have ended (outer : Nat → Term) (list : outer out = .list ((List.range count).map instances)) :
      Gathered state state' instances out count outer
        ((collecting left right element out tail).terminal.map (Term.subst (value .nil count))) := by
    rw [shape, gathered_append (length _)]
    exact ⟨front, back, list⟩
  refine LoopWay.closes steady admits ready arity relates
    (ended (fun _ => .list ((List.range count).map instances)) rfl) fun outer => ?_
  constructor
  · intro known
    exact ⟨value .nil count, ended outer (known _ (List.mem_singleton_self _))⟩
  · rintro ⟨found, gathered⟩
    rw [shape, gathered_append (length found)] at gathered
    exact List.forall_mem_singleton.mpr gathered.2.2

/-- The iterations collect all instances. -/
theorem Collects.presents (aligned : (collecting left right element out tail).Aligned) (le : k ≤ count)
    (admits : ∀ deeper ≤ depth + (count - k), ∀ machine, invariant machine → machine.Admits deeper)
    (relates : bindings.Relates limit args (Gathered state state' instances out k)) :
    way.Presents invariant σ (collecting left right element out tail) .truth args depth bindings
      [fun after => after.Tells limit (Known [(out, .list ((List.range count).map instances))])] none := by
  obtain ⟨remaining, total⟩ : ∃ remaining, count = k + remaining := ⟨count - k, by omega⟩
  induction remaining generalizing k depth bindings args with
  | zero =>
    obtain rfl : count = k := total
    exact collects.presents_last steady ready arity (admits depth (by omega)) relates
  | succ remaining ih =>
    refine collects.presents_next steady ready arity aligned (by omega) (admits depth (by omega)) relates
      fun between args' arity' relates' => ?_
    exact ih arity' (by omega) (fun deeper shallow => admits deeper (by omega)) relates' (by omega)

end

/-! ## The threads of a collecting loop -/

/-- The value that tracks give to a variable in an iteration. -/
def Track.value (tracks : List Track) (k id : Nat) : Term :=
  match tracks.lookup id with
  | some values => values k
  | none => .var id

theorem Track.agrees_value (distinct : (tracks.map Prod.fst).Nodup) : Agrees (Track.value tracks) tracks := by
  intro track member k
  rw [Track.value, lookup_eq_some_of_mem distinct member]

/-- The value of a variable in an iteration when the open end of the list has a value of its own. -/
def Track.valueBefore (tracks : List Track) (tail : Nat) (rest : Term) (k id : Nat) : Term :=
  if id = tail then rest else Track.value tracks k id

theorem Track.agrees_valueBefore (distinct : (tracks.map Prod.fst).Nodup) {tail : Nat}
    (apart : ∀ track ∈ tracks, track.1 ≠ tail) (rest : Term) : Agrees (Track.valueBefore tracks tail rest) tracks := by
  intro track member k
  rw [Track.valueBefore, if_neg (apart track member)]
  exact Track.agrees_value distinct track member k

section

variable {count : Nat} {iterators iterators' : List LoopIterator} {courses courses' : List (List Track)}
  (runs : List.Forall₂ (LoopIterator.Course count) iterators courses)
  (runs' : List.Forall₂ (LoopIterator.Course count) iterators' courses') (some : iterators ++ iterators' ≠ [])
  {element : Term} {out next : Nat} (distinct : ((courses ++ courses').flatten.map Prod.fst).Nodup)
  (below : ∀ track ∈ (courses ++ courses').flatten, track.1 < next)
  (covered : ∀ id ∈ element.occurrences, id ∈ (courses ++ courses').flatten.map Prod.fst)
include runs runs' some distinct below covered

/-- Threads of iterators in front and behind, with the open end of the list taken in between. -/
theorem exists_collects_between {tail after : Nat} {left right : Threads}
    (first : Threads.ofIterators iterators next = .ok left tail)
    (second : Threads.ofIterators iterators' (tail + 1) = .ok right after) :
    ∃ revealed revealed' state state' value, Collects count element tail left right revealed revealed' state state' value
      fun k => element.subst (Track.value (courses ++ courses').flatten k) := by
  obtain ⟨le, inner, revealed, state, range, separate, covers, among, clashes, known⟩ :=
    Threads.follows_ofIterators runs first
  obtain ⟨_, inner', revealed', state', range', separate', covers', among', clashes', known'⟩ :=
    Threads.follows_ofIterators runs' second
  let tracks := (courses ++ courses').flatten ++ (inner ++ inner')
  -- The variables of the courses come first, then those of the threads, with the open end between them.
  have ranges : ∀ track ∈ inner ++ inner', next ≤ track.1 ∧ track.1 ≠ tail := by
    intro track member
    rcases List.mem_append.mp member with member | member
    · have := range track member
      omega
    · have := range' track member
      omega
  have apart : ∀ track ∈ tracks, track.1 ≠ tail := by
    intro track member
    rcases List.mem_append.mp member with member | member
    · have := below track member
      omega
    · exact (ranges track member).2
  have separateInner : ((inner ++ inner').map Prod.fst).Nodup := by
    refine Track.nodup_append separate separate' fun track member track' member' => ?_
    have := range track member
    have := range' track' member'
    omega
  have separateAll : (tracks.map Prod.fst).Nodup := by
    refine Track.nodup_append distinct separateInner fun track member track' member' => ?_
    exact Nat.lt_of_lt_of_le (below track member) (ranges track' member').1
  have agrees := Track.agrees_valueBefore separateAll apart
  have part : courses.flatten ++ inner ⊆ tracks := by
    intro track member
    simp only [tracks, List.flatten_append, List.mem_append] at member ⊢
    tauto
  have part' : courses'.flatten ++ inner' ⊆ tracks := by
    intro track member
    simp only [tracks, List.flatten_append, List.mem_append] at member ⊢
    tauto
  refine ⟨revealed, revealed', state, state', Track.valueBefore tracks tail,
    fun rest => known _ fun track member => agrees rest track (part member),
    fun rest => known' _ fun track member => agrees rest track (part' member), fun rest k => if_pos rfl, ?_, ?_, ?_, ?_⟩
  · intro rest k id member
    have tracked : id ∈ tracks.map Prod.fst := by
      rcases List.mem_append.mp member with member | member
      · exact List.map_subset _ part (among member)
      · exact List.map_subset _ part' (among' member)
    obtain ⟨track, inside, rfl⟩ := List.mem_map.mp tracked
    rw [agrees rest track inside, agrees .nil track inside]
  · intro id occurs
    obtain ⟨track, inside, rfl⟩ := List.mem_map.mp (covered id occurs)
    rw [List.flatten_append, List.mem_append] at inside
    rcases inside with inside | inside
    · exact List.mem_append_left _ (covers track inside)
    · exact List.mem_append_right _ (covers' track inside)
  · intro k _
    refine Term.subst_congr fun id occurs => ?_
    obtain ⟨track, inside, rfl⟩ := List.mem_map.mp (covered id occurs)
    rw [agrees .nil track (List.mem_append_left _ inside), Track.agrees_value distinct track inside]
  · rcases clashes with rfl | clashes
    · injection first with empty
      have some' : iterators' ≠ [] := by simpa using some
      exact .inr ⟨empty.symm, clashes'.resolve_left some'⟩
    · exact .inl clashes

/-- The threads of a loop that collects instances of a term over the variables of courses. -/
theorem exists_collects {after : Nat} {threads : Threads}
    (threaded : Threads.ofIterators (iterators ++ .forEach element (.var out) :: iterators') next = .ok threads after) :
    ∃ tail left right revealed revealed' state state' value, threads = collecting left right element out tail ∧
      Collects count element tail left right revealed revealed' state state' value
        fun k => element.subst (Track.value (courses ++ courses').flatten k) := by
  rw [Threads.ofIterators_append] at threaded
  simp only [Threads.ofIterators, Bind.bind, EStateM.bind] at threaded
  cases first : Threads.ofIterators iterators next with
  | error error between =>
    rw [first] at threaded
    contradiction
  | ok left tail =>
    simp only [first, LoopIterator.threads, LoopIterator.threadElements, Supplied.fresh, Bind.bind, EStateM.bind,
      modifyGet, MonadStateOf.modifyGet, EStateM.modifyGet, Pure.pure, EStateM.pure] at threaded
    cases second : Threads.ofIterators iterators' (tail + 1) with
    | error error between =>
      rw [second] at threaded
      contradiction
    | ok right between =>
      simp only [second] at threaded
      obtain ⟨rfl, rfl⟩ := threaded
      obtain ⟨revealed, revealed', state, state', value, collects⟩ :=
        exists_collects_between runs runs' some distinct below covered first second
      exact ⟨tail, left, right, revealed, revealed', state, state', value, rfl, collects⟩

end

/-! ## Queries -/

/-- A loop in lock-step: iterators over constants, all with the same number of iterations and with different variables,
and a `foreach` that collects a term over these variables. -/
structure LoopSpec.Lockstep (spec : LoopSpec) (count : Nat) (tracks : List Track) (element : Term) (out : Nat) :
    Prop where
  /-- The iterators, in any order. -/
  iterators : ∃ front back courses courses', spec.iterators = front ++ .forEach element (.var out) :: back ∧
    front ++ back ≠ [] ∧ List.Forall₂ (LoopIterator.Course count) front courses ∧
    List.Forall₂ (LoopIterator.Course count) back courses' ∧ tracks = (courses ++ courses').flatten
  /-- Their variables are different. -/
  distinct : (tracks.map Prod.fst).Nodup
  /-- The collected term has no other variables. -/
  covered : ∀ id ∈ element.occurrences, id ∈ tracks.map Prod.fst

theorem LoopIterator.Course.isParam_eq_false (runs : iterator.Course count course) : iterator.isParam = false := by
  cases runs <;> rfl

theorem Term.occurrences_of_mem_args {term item : Term} (ground : term.occurrences = []) (member : item ∈ term.args) :
    item.occurrences = [] :=
  List.subset_nil.mp (ground ▸ fun _ => mem_occurrences_of_mem_args member)

/-- The values of a course are ground. -/
theorem LoopIterator.Course.ground (runs : iterator.Course count course) :
    ∀ track ∈ course, ∀ k, (track.2 k).occurrences = [] := by
  have among {items : List Term} (ground : ∀ item ∈ items, item.occurrences = []) (k : Nat) :
      (items.getD k .nil).occurrences = [] := by
    rw [List.getD_eq_getElem?_getD]
    cases found : items[k]? with
    | none => rfl
    | some item => exact ground item (List.mem_of_getElem? found)
  cases runs with
  | elements id items ground =>
    exact List.forall_mem_singleton.mpr (among fun item member => Term.occurrences_of_isGround (ground item member))
  | arguments id structured ground =>
    exact List.forall_mem_singleton.mpr (among fun item member =>
      Term.occurrences_of_mem_args (Term.occurrences_of_isGround ground) member)
  | positions id index structured ground =>
    exact List.forall_mem_cons.mpr ⟨among fun item member =>
      Term.occurrences_of_mem_args (Term.occurrences_of_isGround ground) member, by simp⟩
  | range => simp
  | count => simp

/-- The variables of a course are variables of the iterator. -/
theorem LoopIterator.Course.mem_occurrences (runs : iterator.Course count course) :
    ∀ track ∈ course, track.1 ∈ iterator.occurrences := by
  cases runs <;> simp [LoopIterator.occurrences, LoopIterator.toTerm]

/-- Each of some iterators has its course among theirs, and each of the courses has its iterator. -/
theorem exists_of_courses {iterators : List LoopIterator} {courses : List (List Track)}
    (runs : List.Forall₂ (LoopIterator.Course count) iterators courses) :
    (∀ iterator ∈ iterators, ∃ course, iterator.Course count course) ∧
      ∀ course ∈ courses, ∃ iterator ∈ iterators, iterator.Course count course := by
  induction runs with
  | nil => simp
  | cons run runs ih =>
    constructor
    · exact List.forall_mem_cons.mpr ⟨⟨_, run⟩, ih.1⟩
    · refine List.forall_mem_cons.mpr ⟨⟨_, List.mem_cons_self, run⟩, fun course member => ?_⟩
      obtain ⟨iterator, inside, run'⟩ := ih.2 course member
      exact ⟨iterator, List.mem_cons_of_mem _ inside, run'⟩

namespace LoopSpec.Lockstep

variable {spec : LoopSpec} {count : Nat} {tracks : List Track} {element : Term} {out : Nat}

variable (lockstep : spec.Lockstep count tracks element out)
include lockstep

theorem plain : ∀ iterator ∈ spec.iterators, iterator.isParam = false := by
  obtain ⟨front, back, courses, courses', shape, _, runs, runs', _⟩ := lockstep.iterators
  intro iterator member
  rw [shape, List.mem_append, List.mem_cons] at member
  rcases member with member | rfl | member
  · obtain ⟨course, run⟩ := (exists_of_courses runs).1 iterator member
    exact run.isParam_eq_false
  · rfl
  · obtain ⟨course, run⟩ := (exists_of_courses runs').1 iterator member
    exact run.isParam_eq_false

/-- The variables with tracks and the one for the list are variables of the loop. -/
theorem mem_occurrences : (∀ track ∈ tracks, track.1 ∈ spec.occurrences) ∧ out ∈ spec.occurrences := by
  obtain ⟨front, back, courses, courses', shape, _, runs, runs', rfl⟩ := lockstep.iterators
  constructor
  · intro track member
    obtain ⟨course, inside, member⟩ := List.mem_flatten.mp member
    rw [occurrences, List.mem_flatMap]
    rcases List.mem_append.mp inside with inside | inside
    · obtain ⟨iterator, there, run⟩ := (exists_of_courses runs).2 course inside
      exact ⟨iterator, by simp [shape, there], run.mem_occurrences track member⟩
    · obtain ⟨iterator, there, run⟩ := (exists_of_courses runs').2 course inside
      exact ⟨iterator, by simp [shape, there], run.mem_occurrences track member⟩
  · rw [occurrences, List.mem_flatMap]
    exact ⟨.forEach element (.var out), by simp [shape], by simp [LoopIterator.occurrences, LoopIterator.toTerm]⟩

theorem closed : spec.Closed .truth where
  plain := lockstep.plain
  own := by simp [Term.truth]
  leaf := trivial

/-- The instances are ground. -/
theorem ground (k : Nat) : (element.subst (Track.value tracks k)).occurrences = [] := by
  obtain ⟨front, back, courses, courses', _, _, runs, runs', shape⟩ := lockstep.iterators
  refine List.eq_nil_iff_forall_not_mem.mpr fun id occurs => ?_
  obtain ⟨other, inside, occurs⟩ := Term.mem_occurrences_subst.mp occurs
  obtain ⟨track, member, rfl⟩ := List.mem_map.mp (lockstep.covered other inside)
  rw [Track.agrees_value lockstep.distinct track member] at occurs
  rw [shape] at member
  obtain ⟨course, among, member⟩ := List.mem_flatten.mp member
  have values : ∀ k, (track.2 k).occurrences = [] := by
    rcases List.mem_append.mp among with among | among
    · obtain ⟨_, _, run⟩ := (exists_of_courses runs).2 course among
      exact run.ground track member
    · obtain ⟨_, _, run⟩ := (exists_of_courses runs').2 course among
      exact run.ground track member
  rw [values k] at occurs
  cases occurs

end LoopSpec.Lockstep

/-- In every mode, a query that is a loop in lock-step with the body `true` has exactly one answer: the collected list
holds the instances of the collected term, one for each iteration and in their order, and all other variables are
unbound. -/
theorem query_lockstep {machine : Machine} (idle : machine.bindings = .empty)
    (reachable : machine.procedures.Reachable)
    (free : ∀ number arity, machine.program.clausesFor (Procedures.nameOf number) arity = []) {text : String}
    {read : ReadTerm} {next : Nat} (reads : readTerm text 0 = .ok read next) {specs : Term}
    (loop : read.term = .binary "do" specs .truth) {spec : LoopSpec} (parsed : LoopSpec.ofTerm specs = .ok spec)
    {count : Nat} {tracks : List Track} {element : Term} {out : Nat}
    (lockstep : spec.Lockstep count tracks element out) {threads : Threads} {after : Nat}
    (accepted : spec.threads next = .ok threads after)
    (deep : ∀ limit, machine.settings.depthLimit = some limit → count < limit) :
    ∃ enough, ∀ fuel ≥ enough, ∃ later, query fuel text machine = .ok [collectedAnswer (shownNames read) out
      ((List.range count).map fun k => element.subst (Track.value tracks k))] later := by
  let items := (List.range count).map fun k => element.subst (Track.value tracks k)
  have asks : Asks text read next [] (.binary "do" specs .truth) := ⟨reads, ⟨[], .nil, loop⟩, List.nodup_nil⟩
  have ground : Determines [(out, .list items)] := by
    refine ⟨List.nodup_singleton _, List.forall_mem_singleton.mpr (Term.occurrences_list fun item member => ?_)⟩
    obtain ⟨k, inside, rfl⟩ := List.mem_map.mp member
    exact lockstep.ground k
  have below : ∀ id ∈ spec.occurrences, id < next := by
    intro id member
    apply asks.below
    simp [Term.binary, LoopSpec.mem_occurrences_of_ofTerm parsed member]
  obtain ⟨tracked, listed⟩ := lockstep.mem_occurrences
  obtain ⟨front, back, courses, courses', shape, some, runs, runs', rfl⟩ := lockstep.iterators
  have aligned := spec.aligned_threads _ _ _ accepted
  have threaded := accepted
  rw [LoopSpec.threads, shape] at threaded
  obtain ⟨tail, left, right, revealed, revealed', state, state', value, rfl, collects⟩ := exists_collects runs runs' some
    lockstep.distinct (fun track member => below _ (tracked track member)) lockstep.covered threaded
  have responds : machine.Responds text ((none : Option RunError).elim
      (.ok ([[(out, .list items)]].map (valuedAnswer (shownNames read)))) .error) := by
    refine asks.responds_loop rfl parsed lockstep.closed accepted idle reachable free
      (List.forall_mem_singleton.mpr ground) fun way procedures number names begun ready scope named => ?_
    have nothing : (collecting left right element out tail).prelude = [] := by
      simp [collecting, collector, Threads.append, (collects.knownLeft .nil).prelude, (collects.knownRight .nil).prelude]
    rw [nothing] at named ⊢
    refine ⟨begun, .done begun, ?_⟩
    refine collects.presents (steady_given machine.settings machine.program procedures) ready (by simp [Threads.arity])
      aligned (Nat.zero_le count) ?_ (collects.relates_initial (below out listed) scope named)
    intro deeper shallow machine' given limit bounded
    have := deep limit (given.settings ▸ bounded)
    omega
  rw [List.map_singleton, valuedAnswer_list] at responds
  exact responds

/-- A list, the arguments of a term with their positions and a range that goes down, side by side. -/
theorem query_lockstep_mixed :
    ∃ enough, ∀ fuel ≥ enough, ∃ later,
      query fuel
          "foreach(X, [a, b]), foreacharg(Y, f(c, d), P), foreach(t(X, Y, P, I), Out), for(I, 5, 1, -3) do true"
          { settings := { mode := .interpreted, depthLimit := some 3 } } =
        .ok [⟨[("X", .var 0), ("Y", .var 1), ("P", .var 2), ("I", .var 3), ("Out", .list [
          .build "t" [.atom "a", .atom "c", .int 1, .int 5],
          .build "t" [.atom "b", .atom "d", .int 2, .int 2]])]⟩] later := by
  let courses := [[((0 : Nat), fun k => [Term.atom "a", Term.atom "b"].getD k .nil)],
    [(1, fun k => [Term.atom "c", Term.atom "d"].getD k .nil), (2, fun k => .int (Int64.ofNat (k + 1)))]]
  let courses' := [[((3 : Nat), fun k => Term.int (indexAt 5 (-3) k))]]
  let spec := LoopSpec.ofIterators [.forEach (.var 0) (.list [.atom "a", .atom "b"]),
    .forEachArg (.var 1) (.binary "f" (.atom "c") (.atom "d")) (some (.var 2)),
    .forEach (.build "t" [.var 0, .var 1, .var 2, .var 3]) (.var 4), .range (.var 3) (.int 5) (.int 1) (.int (-3))]
  have reads : readTerm
      "foreach(X, [a, b]), foreacharg(Y, f(c, d), P), foreach(t(X, Y, P, I), Out), for(I, 5, 1, -3) do true" 0 =
      .ok ⟨.binary "do" spec.toTerm .truth, [("X", 0), ("Y", 1), ("P", 2), ("I", 3), ("Out", 4)]⟩ 5 := by
    cbv
  have lockstep : spec.Lockstep 2 (courses ++ courses').flatten (.build "t" [.var 0, .var 1, .var 2, .var 3]) 4 := by
    refine ⟨⟨[_, _], [_], courses, courses', rfl, by simp, ?_, ?_, rfl⟩, by decide, by decide⟩
    · exact .cons (.elements 0 _ (by decide) rfl) (.cons (.positions 1 2 _ rfl rfl (by decide)) .nil)
    · refine .cons (.range 3 _ _ _ 5 1 (-3) rfl rfl rfl ?_) .nil
      intro k
      have start : (5 : Int64).toInt = 5 := by decide
      have finish : (1 : Int64).toInt = 1 := by decide
      have stride : (-3 : Int64).toInt = -3 := by decide
      rw [start, finish, stride, Within, if_neg (by decide)]
      omega
  refine query_lockstep rfl .empty (fun _ _ => rfl) reads rfl (LoopSpec.ofTerm_toTerm spec) lockstep rfl ?_
  intro limit bounded
  obtain rfl : 3 = limit := by simpa using bounded
  decide

end HornLoops
