import HornLoops.Proofs.Machine.Definitions

/-!
# Loops that number lists

A loop over a range whose bounds are known only when it starts, beside a `foreach` that makes up a list: each iteration
puts its number at the end of what is known of the list. When the range is used up, the list is closed.
-/

namespace HornLoops

open Machine Bindings

/-! ## Consecutive numbers -/

/-- As many consecutive words as there should be, from the first one on. -/
def consecutive (first : Int64) (size : Nat) : List Int64 :=
  (List.range size).map fun offset : Nat => Int64.ofInt (first.toInt + offset)

/-- The words from one on up to another one. -/
def wordsUpTo (low high : Int64) : List Int64 := consecutive low (high.toInt + 1 - low.toInt).toNat

theorem consecutive_succ {first second : Int64} (succ : second.toInt = first.toInt + 1) (size : Nat) :
    consecutive first (size + 1) = first :: consecutive second size := by
  rw [consecutive, consecutive, List.range_succ_eq_map, List.map_cons, List.map_map]
  congr 1
  · simp
  · refine List.map_congr_left fun offset _ => ?_
    simp only [Function.comp_apply, succ]
    congr 1
    push_cast
    omega

/-! ## The threads -/

/-- The iterators `for(Index, Low, High), foreach(Index, List)`. -/
def LoopSpec.numbering (low high list index : Nat) : LoopSpec :=
  ⟨.range (.var index) (.var low) (.var high) (.int 1), [.forEach (.var index) (.var list)]⟩

/-- The threads of such a loop. -/
def numberingThreads (low high list index next : Nat) : Threads where
  initial := [.var (next + 1), .var (next + 2), .var list]
  terminal := [.var (next + 3), .var (next + 3), .nil]
  prelude := [Goal.evaluate (.var (next + 1)) (.var low),
    Goal.evaluate (.var (next + 2)) (.binary "max" (.var (next + 1)) (Goal.plus (.var high) 1))]
  head := [.var index, .var (next + 4), .cons (.var index) (.var (next + 5))]
  steps := [Goal.evaluate (.var next) (Goal.plus (.var index) 1)]
  call := [.var next, .var (next + 4), .var (next + 5)]

theorem LoopSpec.threads_numbering (low high list index next : Nat) :
    (numbering low high list index).threads next = .ok (numberingThreads low high list index next) (next + 6) := rfl

/-! ## Rounds -/

/-- What the arguments of a round are: a number, the number at which the loop stops, and the rest of the list after the
items that are known. -/
def Numbered (known : List (Nat × Term)) (id : Nat) (words : List Int64) (word stop : Int64) (outer : Nat → Term)
    (values : List Term) : Prop :=
  Known known outer ∧ ∃ rest, outer id = .listBefore (words.map .int) rest ∧ values = [.int word, .int stop, rest]

theorem Term.occurrences_words (words : List Int64) : (Term.list (words.map .int)).occurrences = [] := by
  apply occurrences_list
  simp

theorem Term.listBefore_concat (items : List Term) (item tail : Term) :
    listBefore (items ++ [item]) tail = listBefore items (cons item tail) := by
  simp [listBefore]

section

variable {known : List (Nat × Term)} {id low high list index next : Nat}

variable {words : List Int64} {word stop : Int64} {depth : Nat} {bindings : Bindings} {args : List Term}

/-- The values of the variables in the head of an iteration. -/
theorem numbered_head {outer value : Nat → Term} :
    Numbered known id words word stop outer
        ((numberingThreads low high list index next).head.map (Term.subst value)) ↔
      Known known outer ∧ value index = .int word ∧ value (next + 4) = .int stop ∧
        outer id = .listBefore ((words ++ [word]).map .int) (value (next + 5)) := by
  simp only [Numbered, numberingThreads, List.map_append, List.map_cons, List.map_nil, Term.subst_var,
    Term.listBefore_concat]
  constructor
  · rintro ⟨holds, rest, known, same⟩
    simp only [List.cons.injEq, and_true] at same
    obtain ⟨number, limit, rfl⟩ := same
    exact ⟨holds, number, limit, by simpa [Term.cons, Term.binary, number] using known⟩
  · rintro ⟨holds, number, limit, known⟩
    exact ⟨holds, _, known, by simp [Term.cons, Term.binary, number, limit]⟩

variable {invariant : Machine → Prop} (steady : Steady invariant) {way : LoopWay}
  (ready : way.Ready invariant (numberingThreads low high list index next) .truth) (inside : index < next)
  (determines : Determines known) (other : id ∉ known.map Prod.fst) {limit : Nat} {σ : Type}
include steady ready inside determines other

/-- An iteration puts its number at the end of the list. -/
theorem presents_numbered_succ {word' : Int64} (less : word.toInt < stop.toInt) (succ : word'.toInt = word.toInt + 1)
    (admits : ∀ machine, invariant machine → machine.Admits depth) (arity : args.length = 3)
    (relates : bindings.Relates limit args (Numbered known id words word stop)) {solutions : List (Bindings → Prop)}
    {fault : Option RunError} (further : ∀ (between : Bindings) (args' : List Term), args'.length = 3 →
      between.Relates limit args' (Numbered known id (words ++ [word]) word' stop) →
      way.Presents invariant σ (numberingThreads low high list index next) .truth args' (depth + 1) between solutions
        fault) :
    way.Presents invariant σ (numberingThreads low high list index next) .truth args depth bindings solutions fault := by
  let threads := numberingThreads low high list index next
  -- The values of the variables of the iteration, for a rest of the list.
  let valued (rest : Term) (each : Nat) : Term :=
    if each = index then .int word else if each = next then .int word' else if each = next + 4 then .int stop else rest
  have possible {outer : Nat → Term} {rest : Term} (holds : Known known outer)
      (listed : outer id = .listBefore ((words ++ [word]).map .int) rest) :
      Numbered known id words word stop outer (threads.head.map (Term.subst (valued rest))) := by
    rw [numbered_head]
    simp only [valued]
    grind
  obtain ⟨outer, holds, free⟩ := determines.exists_known fun _ => .listBefore ((words ++ [word]).map .int) .nil
  have start := possible holds (free id other)
  have clash : Clash (Numbered known id words word stop) threads.terminal := by
    refine ⟨[.var (next + 3)], .var (next + 3), [.nil], rfl, ⟨outer, fun _ => .int word, _, start, ?_⟩, ?_⟩
    · simp [threads, numberingThreads, valued]
    · rintro outer value values ⟨_, rest, _, rfl⟩ same
      have number : value (next + 3) = .int word := (List.cons.inj same).1
      refine ⟨.int stop, rfl, ?_⟩
      rw [Term.subst_var, number]
      refine ⟨rfl, rfl, ?_, .inl rfl⟩
      intro equal
      rw [Term.int.inj equal] at less
      omega
  obtain ⟨begun, scope, goes, _⟩ := LoopWay.goes (σ := σ) steady admits ready arity relates clash start
  have evaluated (outer value : Nat → Term)
      (holds : Numbered known id words word stop outer (threads.head.map (Term.subst value))) :
      Arithmetic.evalWith (fun _ => .error .unbound) ((Goal.plus (.var index) 1).subst value) = .ok word' := by
    rw [numbered_head] at holds
    rw [Goal.subst_plus, Term.subst_var, holds.2.1]
    exact Goal.evalWith_plus succ
  have counter : valued .nil next = .int word' := by
    simp only [valued]
    grind
  have named : Term.var next ∈ threads.head ++ threads.steps ++ threads.call := by simp [threads, numberingThreads]
  obtain ⟨between, attains, scope'⟩ := scope.evaluate (σ := σ) start steady (Threads.mem_stepNames named (by simp)) counter
    evaluated (depth + 1)
  refine goes between solutions fault (.step ?_ attains (.skip (.done between))) (further between _ rfl ?_)
  · simp [Goal.evaluate, Term.binary, Term.truth]
  refine scope'.relates (fun term member id occurs => ?_) ?_ ?_
  · exact Threads.mem_stepNames (by simp [member]) occurs
  · rintro outer value ⟨holds, number⟩
    rw [numbered_head] at holds
    exact ⟨holds.1, _, holds.2.2.2, by simp [numberingThreads, holds, number]⟩
  · rintro outer _ ⟨holds, rest, listed, rfl⟩
    refine ⟨valued rest, ⟨possible holds listed, ?_⟩, ?_⟩
    · simp only [valued]
      grind
    · simp only [numberingThreads, List.map_cons, Term.subst_var, List.map_nil, valued]
      grind

omit inside in
/-- At the end the list is closed. -/
theorem presents_numbered_end (admits : ∀ machine, invariant machine → machine.Admits depth) (arity : args.length = 3)
    (relates : bindings.Relates limit args (Numbered known id words stop stop)) :
    way.Presents invariant σ (numberingThreads low high list index next) .truth args depth bindings
      [fun after => after.Tells limit (Known ((id, .list (words.map .int)) :: known))] none := by
  have ended (outer value : Nat → Term) : Numbered known id words stop stop outer
      ((numberingThreads low high list index next).terminal.map (Term.subst value)) ↔
        Known ((id, .list (words.map .int)) :: known) outer ∧ value (next + 3) = .int stop := by
    simp only [known_cons, Numbered, numberingThreads, List.map_cons, List.map_nil, Term.subst_var, Term.list]
    grind [Term.nil, Term.subst_atom]
  exact LoopWay.closes_known steady ready admits arity (determines.cons other (Term.occurrences_words words)) ended relates

/-- The iterations number the list. -/
theorem presents_numbered {size : Nat} (total : stop.toInt = word.toInt + size)
    (admits : ∀ deeper ≤ depth + size, ∀ machine, invariant machine → machine.Admits deeper) (arity : args.length = 3)
    (relates : bindings.Relates limit args (Numbered known id words word stop)) :
    way.Presents invariant σ (numberingThreads low high list index next) .truth args depth bindings
      [fun after => after.Tells limit (Known ((id, .list ((words ++ consecutive word size).map .int)) :: known))] none := by
  induction size generalizing words word depth bindings args with
  | zero =>
    have same : word = stop := Int64.toInt_inj.mp (by simpa using total.symm)
    subst same
    have closed : words ++ consecutive word 0 = words := by simp [consecutive]
    rw [closed]
    exact presents_numbered_end steady ready determines other (admits depth (by omega)) arity relates
  | succ size ih =>
    rw [Nat.cast_add_one] at total
    have less : word.toInt < stop.toInt := by omega
    obtain ⟨word', succ⟩ := exists_succ less
    have listed : words ++ consecutive word (size + 1) = words ++ [word] ++ consecutive word' size := by
      rw [consecutive_succ succ, List.append_cons]
    rw [listed]
    refine presents_numbered_succ steady ready inside determines other less succ (admits depth (by omega)) arity relates
      fun between args' arity' relates' => ?_
    exact ih (by omega) (fun deeper shallow => admits deeper (by omega)) arity' relates'

end

/-! ## Starting -/

/-- What is known of the bounds and of the list when the loop starts. -/
def Bounded (known : List (Nat × Term)) (id low high list : Nat) (first last : Int64) (outer value : Nat → Term) : Prop :=
  Known known outer ∧ value low = .int first ∧ value high = .int last ∧ value list = outer id

section

variable {known : List (Nat × Term)} {id low high list index next : Nat} {first last stop : Int64} {limit : Nat}
  {names : List Nat} {number : Nat → Nat} {begun : Bindings} (determines : Determines known)
  (distinct : [low, high, list].Nodup) (inside : low < next ∧ high < next ∧ list < next)
  (scope : begun.Scope limit names number (Bounded known id low high list first last))
  (named : ∀ term ∈ (numberingThreads low high list index next).prelude ++
    (numberingThreads low high list index next).initial, ∀ id ∈ term.occurrences, id ∈ names)
include determines distinct inside scope named

/-- The first number and the number after the last one are computed before the loop starts. -/
theorem exists_runs_numbering (room : last.toInt < 9223372036854775807)
    (greater : stop.toInt = max first.toInt (last.toInt + 1)) {invariant : Machine → Prop} (steady : Steady invariant)
    (σ : Type) (depth : Nat) :
    ∃ between, Runs invariant σ depth
        ((numberingThreads low high list index next).prelude.map (Term.rename number)) begun between ∧
      between.Relates limit ((numberingThreads low high list index next).initial.map (Term.rename number))
        (Numbered known id [] first stop) := by
  obtain ⟨edge, succ⟩ : ∃ edge : Int64, edge.toInt = last.toInt + 1 := by
    apply exists_word
    have fits := fits_toInt last
    unfold Fits at fits ⊢
    omega
  -- The values of the variables when the first round starts.
  let valued (outer : Nat → Term) (each : Nat) : Term :=
    if each = next + 1 then .int first else if each = next + 2 then .int stop else if each = low then .int first
    else if each = high then .int last else outer id
  have bounded (outer : Nat → Term) (holds : Known known outer) :
      Bounded known id low high list first last outer (valued outer) := by
    simp only [List.nodup_cons, List.mem_cons, List.not_mem_nil, or_false, not_or] at distinct
    refine ⟨holds, ?_⟩
    simp only [valued]
    grind
  have evaluatedFirst (outer value : Nat → Term) (holds : Bounded known id low high list first last outer value) :
      Arithmetic.evalWith (fun _ => .error .unbound) ((Term.var low).subst value) = .ok first := by
    rw [Term.subst_var, holds.2.1]
    rfl
  have evaluatedStop (outer value : Nat → Term)
      (holds : Bounded known id low high list first last outer value ∧ value (next + 1) = .int first) :
      Arithmetic.evalWith (fun _ => .error .unbound)
        ((Term.binary "max" (.var (next + 1)) (Goal.plus (.var high) 1)).subst value) = .ok stop := by
    have shape : (Term.binary "max" (.var (next + 1)) (Goal.plus (.var high) 1)).subst value =
        .binary "max" (.int first) (Goal.plus (.int last) 1) := by
      simp [Term.binary, holds.1.2.2.1, holds.2]
    rw [shape, Arithmetic.evalWith_binary rfl (Goal.evalWith_plus succ)]
    rw [← succ] at greater
    exact Arithmetic.narrow_eq_ok_iff.mpr greater
  obtain ⟨outer, holds, _⟩ := determines.exists_known Term.var
  have takes (id : Nat) (member : id = next + 1 ∨ id = next + 2) : id ∈ names := by
    apply named (.var id) _ id (by simp)
    rcases member with rfl | rfl <;> simp [numberingThreads]
  obtain ⟨middle, attains, scope'⟩ := scope.evaluate (σ := σ) (bounded outer holds) steady (takes _ (.inl rfl))
    (show valued outer (next + 1) = .int first from if_pos rfl) evaluatedFirst depth
  have later : valued outer (next + 2) = .int stop := by
    simp only [valued]
    grind
  obtain ⟨between, attains', scope''⟩ := scope'.evaluate (σ := σ) ⟨bounded outer holds, if_pos rfl⟩ steady
    (takes _ (.inr rfl)) later evaluatedStop depth
  have nontrivial (target expression : Term) : (Goal.evaluate target expression).rename number ≠ .truth := by
    simp [Goal.evaluate, Term.binary, Term.truth]
  refine ⟨between, .step (nontrivial _ _) attains (.step (nontrivial _ _) attains' (.done between)), ?_⟩
  refine scope''.relates (fun term member => named term (List.mem_append_right _ member)) ?_ ?_
  · rintro outer value ⟨⟨⟨holds, _, _, listed⟩, start⟩, stopped⟩
    exact ⟨holds, value list, listed.symm, by simp [numberingThreads, start, stopped]⟩
  · rintro outer _ ⟨holds, rest, listed, rfl⟩
    have same : outer id = rest := listed
    refine ⟨valued outer, ⟨⟨bounded outer holds, if_pos rfl⟩, ?_⟩, ?_⟩
    · simp only [valued]
      grind
    · have given := (bounded outer holds).2.2.2
      simp only [numberingThreads, List.map_cons, Term.subst_var, List.map_nil, given, same]
      simp only [valued]
      grind

end

/-! ## Queries -/

/-- A query for a predicate that numbers a list is answered with the list. -/
theorem Asks.responds_numbering {text : String} {read : ReadTerm} {count : Nat} {known : List (Nat × Term)} {name : String}
    {from' upTo : Term} {id : Nat} (asks : Asks text read count known (.build name [from', upTo, .var id]))
    (asked : Goal.ofCall name [from', upTo, .var id] = .predicate name [from', upTo, .var id]) {machine : Machine}
    (idle : machine.bindings = .empty) (sound : machine.procedures.Sound)
    (free : ∀ number arity, machine.program.clausesFor (Procedures.nameOf number) arity = [])
    {low high list index next : Nat}
    (defined : machine.Defines name [low, high, list] (.numbering low high list index) .truth next
      (numberingThreads low high list index next))
    (other : id ∉ known.map Prod.fst) {first last : Int64} (lowest : from'.subst (valueAmong known) = .int first)
    (highest : upTo.subst (valueAmong known) = .int last) (room : last.toInt < 9223372036854775807)
    (deep : ∀ limit, machine.settings.depthLimit = some limit → (wordsUpTo first last).length + 1 < limit) :
    machine.Responds text
      (.ok [valuedAnswer (shownNames read) ((id, .list ((wordsUpTo first last).map .int)) :: known)]) := by
  have length : (wordsUpTo first last).length = (last.toInt + 1 - first.toInt).toNat := by simp [wordsUpTo, consecutive]
  obtain ⟨stop, greater⟩ : ∃ stop : Int64, stop.toInt = max first.toInt (last.toInt + 1) := by
    apply exists_word
    have fits := fits_toInt first
    unfold Fits at fits ⊢
    omega
  have determined : ∀ known' ∈ [(id, Term.list ((wordsUpTo first last).map .int)) :: known], Determines known' :=
    List.forall_mem_singleton.mpr (asks.determines.cons other (Term.occurrences_words _))
  have admits (depth : Nat) (shallow : depth ≤ 1 + (wordsUpTo first last).length) (machine' : Machine)
      {procedures : Procedures} (given : Given machine.settings machine.program procedures machine') :
      machine'.Admits depth := by
    intro limit bounded
    have := deep limit (given.settings ▸ bounded)
    omega
  have occurs (each : Nat) (member : each ∈ [low, high, list, index]) : each < next := by
    apply defined.inside
    simp [LoopSpec.numbering, LoopSpec.occurrences, LoopSpec.iterators, LoopIterator.occurrences, LoopIterator.toTerm]
      at member ⊢
    tauto
  have word {term : Term} {word : Int64} (valued : term.subst (valueAmong known) = .int word) {outer : Nat → Term}
      (holds : Known known outer) : term.subst outer = .int word := by
    rw [← asks.determines.subst_subst holds, valued, Term.subst_int]
  have loopless : Loopless (.build name [from', upTo, .var id]) := trivial
  show machine.Responds text ((none : Option RunError).elim
    (.ok ([(id, Term.list ((wordsUpTo first last).map .int)) :: known].map (valuedAnswer (shownNames read)))) .error)
  refine asks.responds_defined loopless asked idle sound free defined rfl (admits 0 (by omega) machine ⟨rfl, rfl, rfl⟩)
    determined ?_
  intro way procedures number names begun ready scope named
  have steady := steady_given machine.settings machine.program procedures
  have bounded : begun.Scope count names number (Bounded known id low high list first last) := by
    refine scope.congr fun outer value => and_congr_right fun holds => ?_
    simp [word lowest holds, word highest holds]
  obtain ⟨between, runs, relates⟩ := exists_runs_numbering asks.determines defined.distinct
    ⟨occurs low (by simp), occurs high (by simp), occurs list (by simp)⟩ bounded named room greater steady (List Answer) 1
  refine ⟨between, runs, ?_⟩
  have total : stop.toInt = first.toInt + (last.toInt + 1 - first.toInt).toNat := by omega
  refine presents_numbered steady ready (occurs index (by simp)) asks.determines other total ?_ rfl relates
  exact fun deeper shallow machine' given => admits deeper (by omega) machine' given

end HornLoops
