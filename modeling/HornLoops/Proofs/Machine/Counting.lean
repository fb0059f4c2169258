import HornLoops.Proofs.Machine.Queries

/-!
# Counters without a limit

A counter beside a `foreach` over a list counts the iterations. If its limit is unbound when the loop starts, the loop
binds it to the last number. If the limit is known, the loop succeeds exactly if the last number is the greater one of
the limit and the number before the first one.
-/

namespace HornLoops

open Machine Bindings

/-! ## The threads -/

/-- The threads of a loop over a list with a counter that has a variable as its limit. -/
def countingThreads (element index max : Nat) (list : Term) (start : Int64) (next : Nat) : Threads where
  initial := [list, .int start, .var (next + 2)]
  terminal := [.nil, .var (next + 3), .var (next + 3)]
  prelude := [LoopIterator.openLimit (.var (next + 2)) (.int start) (.var max)]
  head := [.cons (.var element) (.var next), .var (next + 1), .var (next + 4)]
  steps := [Goal.evaluate (.var index) (Goal.plus (.var (next + 1)) 1)]
  call := [.var next, .var index, .var (next + 4)]

/-- The iterators `foreach(Element, List), count(Index, First, Max)`. -/
def LoopSpec.counting (element index max : Nat) (list first : Term) : LoopSpec :=
  ⟨.forEach (.var element) list, [.count (.var index) first (.var max)]⟩

theorem LoopSpec.threads_counting (element index max : Nat) (list : Term) {first : Term} {word start : Int64}
    (constant : first.constant? = some word) (before : start.toInt = word.toInt - 1) (next : Nat) :
    (counting element index max list first).threads next =
      .ok (countingThreads element index max list start next) (next + 5) := by
  have found : word? (word.toInt - 1) = some start := (word?_eq_some_iff _ _).mpr before
  have unknown : (Term.var max).constant? = none := rfl
  simp [counting, threads, iterators, Threads.ofIterators, LoopIterator.threads, LoopIterator.threadElements,
    LoopIterator.threadCount, LoopIterator.countStart, LoopIterator.threadOpenCount, constant, found, unknown]
  rfl

/-! ## Rounds -/

/-- What the arguments of a round are: the rest of the list, the last number so far, and the limit. -/
def Counted (known : List (Nat × Term)) (stop : (Nat → Term) → Term) (rest : List Term) (word : Int64)
    (outer : Nat → Term) (values : List Term) : Prop :=
  Known known outer ∧ values = [.list (rest.map (Term.subst outer)), .int word, stop outer]

section

variable {known : List (Nat × Term)} {stop : (Nat → Term) → Term} {element index max next : Nat} {list : Term}
  {start : Int64}

variable {word last : Int64} {item : Term} {rest args : List Term} {depth : Nat} {bindings : Bindings}
  {solutions : List (Bindings → Prop)} {fault : Option RunError}

/-- The values of the variables in the head of an iteration. -/
theorem counted_head {outer value : Nat → Term} :
    Counted known stop (item :: rest) word outer
        ((countingThreads element index max list start next).head.map (Term.subst value)) ↔
      Known known outer ∧ value element = item.subst outer ∧ value next = .list (rest.map (Term.subst outer)) ∧
        value (next + 1) = .int word ∧ value (next + 4) = stop outer := by
  simp [Counted, countingThreads, Term.list, Term.listBefore, Term.cons, Term.binary, and_assoc]

variable {invariant : Machine → Prop} (steady : Steady invariant) {way : LoopWay}
  (ready : way.Ready invariant (countingThreads element index max list start next) .truth)
  (inside : element < next ∧ index < next) (different : element ≠ index) (determines : Determines known) {limit : Nat}
  {σ : Type}
include steady ready inside different determines

/-- An iteration takes an item and counts it. -/
theorem presents_counted_cons {word' : Int64} (counts : word'.toInt = word.toInt + 1)
    (admits : ∀ machine, invariant machine → machine.Admits depth) (arity : args.length = 3)
    (relates : bindings.Relates limit args (Counted known stop (item :: rest) word))
    (further : ∀ (between : Bindings) (args' : List Term), args'.length = 3 →
      between.Relates limit args' (Counted known stop rest word') →
      way.Presents invariant σ (countingThreads element index max list start next) .truth args' (depth + 1) between
        solutions fault) :
    way.Presents invariant σ (countingThreads element index max list start next) .truth args depth bindings solutions
      fault := by
  let threads := countingThreads element index max list start next
  -- The values of the variables of the iteration.
  let valued (outer : Nat → Term) (id : Nat) : Term :=
    if id = element then item.subst outer else if id = index then .int word'
    else if id = next then .list (rest.map (Term.subst outer)) else if id = next + 1 then .int word else stop outer
  have possible (outer : Nat → Term) (holds : Known known outer) :
      Counted known stop (item :: rest) word outer (threads.head.map (Term.subst (valued outer))) := by
    rw [counted_head]
    simp only [valued]
    grind
  obtain ⟨outer, holds, _⟩ := determines.exists_known Term.var
  have clash : Clash (Counted known stop (item :: rest) word) threads.terminal := by
    apply Clash.first ⟨outer, _, possible outer holds⟩
    rintro outer value values ⟨_, rfl⟩
    exact ⟨_, _, rfl, apart_nil_cons value _ _⟩
  obtain ⟨begun, scope, goes, _⟩ := LoopWay.goes (σ := σ) steady admits ready arity relates clash (possible outer holds)
  have evaluated (outer value : Nat → Term)
      (holds : Counted known stop (item :: rest) word outer (threads.head.map (Term.subst value))) :
      Arithmetic.evalWith (fun _ => .error .unbound) ((Goal.plus (.var (next + 1)) 1).subst value) = .ok word' := by
    rw [counted_head] at holds
    rw [Goal.subst_plus, Term.subst_var, holds.2.2.2.1]
    exact Goal.evalWith_plus counts
  have counter : valued outer index = .int word' := by
    simp only [valued]
    grind
  have named : Term.var index ∈ threads.head ++ threads.steps ++ threads.call := by simp [threads, countingThreads]
  obtain ⟨between, attains, scope'⟩ := scope.evaluate (σ := σ) (possible outer holds) steady
    (Threads.mem_stepNames named (by simp)) counter evaluated (depth + 1)
  refine goes between solutions fault (.step ?_ attains (.skip (.done between))) (further between _ rfl ?_)
  · simp [Goal.evaluate, Term.binary, Term.truth]
  refine scope'.relates (fun term member id occurs => ?_) ?_ ?_
  · exact Threads.mem_stepNames (by simp [member]) occurs
  · rintro outer value ⟨holds, number⟩
    rw [counted_head] at holds
    exact ⟨holds.1, by simp [countingThreads, holds, number]⟩
  · rintro outer values ⟨holds, rfl⟩
    refine ⟨valued outer, ⟨possible outer holds, ?_⟩, ?_⟩
    · simp only [valued]
      grind
    · simp only [countingThreads, List.map_cons, Term.subst_var, List.map_nil, valued]
      grind

/-- Iterations take all items and count them. -/
theorem presents_counted {items : List Term} {first : Int64} (total : last.toInt = first.toInt + items.length)
    (admits : ∀ deeper ≤ depth + items.length, ∀ machine, invariant machine → machine.Admits deeper)
    (arity : args.length = 3) (relates : bindings.Relates limit args (Counted known stop items first))
    (ends : ∀ (between : Bindings) (args' : List Term), args'.length = 3 →
      between.Relates limit args' (Counted known stop [] last) →
      way.Presents invariant σ (countingThreads element index max list start next) .truth args' (depth + items.length)
        between solutions fault) :
    way.Presents invariant σ (countingThreads element index max list start next) .truth args depth bindings solutions
      fault := by
  induction items generalizing first depth bindings args with
  | nil =>
    have same : first = last := Int64.toInt_inj.mp (by simpa using total.symm)
    subst same
    exact ends bindings args arity relates
  | cons item rest ih =>
    rw [List.length_cons] at total admits ends
    obtain ⟨word, counts⟩ := exists_succ (show first.toInt < last.toInt by omega)
    refine presents_counted_cons steady ready inside different determines counts (admits depth (by omega)) arity relates
      fun between args' arity' relates' => ?_
    refine ih (by push_cast at total; omega) (fun deeper shallow => admits deeper (by omega)) arity'
      relates' fun between' args'' arity'' relates'' => ?_
    have ended := ends between' args'' arity'' relates''
    rwa [Nat.add_comm rest.length 1, ← Nat.add_assoc] at ended

omit inside different in
/-- A limit that is unbound gets the last number. -/
theorem presents_counted_open (other : max ∉ known.map Prod.fst)
    (admits : ∀ machine, invariant machine → machine.Admits depth) (arity : args.length = 3)
    (relates : bindings.Relates limit args (Counted known (fun outer => outer max) [] last)) :
    way.Presents invariant σ (countingThreads element index max list start next) .truth args depth bindings
      [fun after => after.Tells limit (Known ((max, .int last) :: known))] none := by
  exact LoopWay.presents_result steady ready admits arity determines rfl other rfl relates

omit inside different in
/-- A limit that is known has to be the last number. -/
theorem presents_counted_known (admits : ∀ machine, invariant machine → machine.Admits depth)
    (arity : args.length = 3) (relates : bindings.Relates limit args (Counted known (fun _ => .int word) [] last)) :
    way.Presents invariant σ (countingThreads element index max list start next) .truth args depth bindings
      ((if last = word then [known] else []).map fun known' after => after.Tells limit (Known known')) none := by
  have ended (outer value : Nat → Term) : Counted known (fun _ => .int word) [] last outer
      ((countingThreads element index max list start next).terminal.map (Term.subst value)) ↔
        Known known outer ∧ value (next + 3) = .int last ∧ last = word := by
    simp only [Counted, countingThreads, List.map_cons, List.map_nil, Term.subst_var]
    grind [Term.list, Term.listBefore, Term.nil, Term.subst_atom]
  obtain ⟨outer, holds, _⟩ := determines.exists_known Term.var
  by_cases reached : last = word
  · rw [if_pos reached]
    simp only [reached, and_true] at ended
    exact LoopWay.closes_known steady ready admits arity determines ended (reached ▸ relates)
  · rw [if_neg reached]
    have possible : Counted known (fun _ => .int word) [] last outer [.nil, .int last, .int word] := ⟨holds, rfl⟩
    refine LoopWay.fails steady admits ready arity relates ?_ ?_
    · refine ⟨[.nil, .var (next + 3)], .var (next + 3), [], rfl, ⟨outer, fun _ => .int last, _, possible, rfl⟩, ?_⟩
      rintro outer value values ⟨_, rfl⟩ same
      have number : value (next + 3) = .int last := (List.cons.inj (List.cons.inj same).2).1
      refine ⟨.int word, rfl, ?_⟩
      rw [Term.subst_var, number]
      exact ⟨rfl, rfl, by simpa using reached, .inl rfl⟩
    · apply Clash.first ⟨outer, _, possible⟩
      rintro outer value values ⟨_, rfl⟩
      exact ⟨_, _, rfl, rfl, rfl, by simp [Term.cons, Term.binary, Term.list, Term.listBefore, Term.nil], .inr rfl⟩

end

/-! ## Starting -/

theorem rename_prelude_counting (element index max : Nat) (list : Term) (start : Int64) (next : Nat) (number : Nat → Nat) :
    (countingThreads element index max list start next).prelude.map (Term.rename number) =
      [.binary ";" (.binary "->" (.unary "var" (.var (number max)))
        ((Term.binary "=" (.var (next + 2)) (.var max)).rename number))
        ((Goal.evaluate (.var (next + 2)) (.binary "max" (.int start) (.var max))).rename number)] := by
  simp [countingThreads, LoopIterator.openLimit, Term.binary, Term.unary]

section

variable {known : List (Nat × Term)} {count element index max : Nat} {list : Term} {start : Int64} {names : List Nat}
  {number : Nat → Nat} {begun : Bindings} (determines : Determines known)
  (scope : begun.Scope count names number (Asked count known)) (below : ∀ entry ∈ known, entry.1 < count)
  (inside : max < count) (taken : max ∈ names ∧ count + 2 ∈ names) {invariant : Machine → Prop}
  (steady : Steady invariant) (σ : Type) (depth : Nat)
include determines scope below inside taken steady

omit determines scope taken inside steady in
/-- A further variable may have any value. -/
theorem asked_extended {outer : Nat → Term} (holds : Known known outer) (term : Term) :
    Asked count known outer fun id => if id = count + 2 then term else outer id := by
  refine ⟨fun id small => if_neg (by omega), fun entry member => ?_⟩
  have small := below entry member
  show (if entry.1 = count + 2 then term else outer entry.1) = entry.2
  rw [if_neg (by omega), holds entry member]

/-- A limit that is unbound is handed on. -/
theorem exists_runs_openLimit_unbound (other : max ∉ known.map Prod.fst) :
    ∃ between, Runs invariant σ depth
        ((countingThreads element index max list start count).prelude.map (Term.rename number)) begun between ∧
      between.Scope count names number fun outer value =>
        Asked count known outer value ∧ value (count + 2) = outer max := by
  have free (term : Term) : ∃ outer, Asked count known outer outer ∧ outer max = term := by
    obtain ⟨outer, holds, others⟩ := determines.exists_known fun _ => term
    exact ⟨outer, ⟨fun _ _ => rfl, holds⟩, others max other⟩
  obtain ⟨one, asked, atom⟩ := free .nil
  obtain ⟨two, asked', integer⟩ := free (.int 0)
  have unbound := scope.isVar_walk taken.1 asked atom asked' integer
  have agree : (Term.var (count + 2)).subst (fun id => if id = count + 2 then one max else one id) =
      (Term.var max).subst fun id => if id = count + 2 then one max else one id := by
    rw [Term.subst_var, Term.subst_var, if_pos rfl, if_neg (by omega)]
  have knownStop : ∀ id ∈ (Term.var (count + 2)).occurrences, id ∈ names := by simpa using taken.2
  have knownMax : ∀ id ∈ (Term.var max).occurrences, id ∈ names := by simpa using taken.1
  obtain ⟨between, attains, scope'⟩ := scope.unify (σ := σ) (asked_extended below asked.2 (one max)) steady knownStop
    knownMax agree depth
  refine ⟨between, ?_, scope'.congr fun outer value => ?_⟩
  · rw [rename_prelude_counting]
    refine .step (by simp [Term.binary, Term.truth]) (.ifTrue rfl steady (fun fuel => ?_) attains) (.done between)
    simp [Builtin.inspect, Builtin.test, unbound]
  · rw [Term.subst_var, Term.subst_var]
    constructor
    · rintro ⟨asked, same⟩
      exact ⟨asked, same.trans (asked.1 max inside)⟩
    · rintro ⟨asked, same⟩
      exact ⟨asked, same.trans (asked.1 max inside).symm⟩

omit inside in
/-- For a limit that is known the stop value is computed. -/
theorem exists_runs_openLimit_known {word stop : Int64} (member : (max, .int word) ∈ known)
    (greater : stop.toInt = Max.max start.toInt word.toInt) :
    ∃ between, Runs invariant σ depth
        ((countingThreads element index max list start count).prelude.map (Term.rename number)) begun between ∧
      between.Scope count names number fun outer value =>
        Asked count known outer value ∧ value (count + 2) = .int stop := by
  obtain ⟨outer, holds, _⟩ := determines.exists_known Term.var
  have asked := asked_extended below holds (.int stop)
  have limited (outer value : Nat → Term) (asked : Asked count known outer value) : value max = .int word :=
    asked.2 _ member
  have bound : begun.walk (.var (number max)) = .int word :=
    (scope.fixes limited).walk_eq scope.formed (scope.acyclic asked) rfl rfl
  have evaluated (outer value : Nat → Term) (asked : Asked count known outer value) :
      Arithmetic.evalWith (fun _ => .error .unbound) ((Term.binary "max" (.int start) (.var max)).subst value) =
        .ok stop := by
    simp only [Term.subst_binary, Term.subst_int, Term.subst_var, limited outer value asked]
    exact Arithmetic.narrow_eq_ok_iff.mpr greater
  obtain ⟨between, attains, scope'⟩ := scope.evaluate (σ := σ) asked steady taken.2 (if_pos rfl) evaluated depth
  refine ⟨between, ?_, scope'⟩
  rw [rename_prelude_counting]
  refine .step (by simp [Term.binary, Term.truth]) (.ifFalse rfl steady (fun fuel => ?_) attains) (.done between)
  simp [Builtin.inspect, Builtin.test, bound, Term.isVar]

end

/-- The first round starts with the list, the number before the first one, and the limit. -/
theorem relates_initial_counting {known : List (Nat × Term)} {count element index max : Nat} {list : Term}
    {start : Int64} {names : List Nat} {number : Nat → Nat} {between : Bindings} {stop : (Nat → Term) → Term}
    (determines : Determines known) (below : ∀ entry ∈ known, entry.1 < count) (belowList : list.Below count)
    {items : List Term} (listed : list.subst (valueAmong known) = .list items)
    (named : ∀ term ∈ (countingThreads element index max list start count).initial, ∀ id ∈ term.occurrences, id ∈ names)
    (scope : between.Scope count names number fun outer value =>
      Asked count known outer value ∧ value (count + 2) = stop outer) :
    between.Relates count ((countingThreads element index max list start count).initial.map (Term.rename number))
      (Counted known stop items start) := by
  have values {outer value : Nat → Term} (asked : Asked count known outer value) (limited : value (count + 2) = stop outer) :
      (countingThreads element index max list start count).initial.map (Term.subst value) =
        [.list (items.map (Term.subst outer)), .int start, stop outer] := by
    simp only [countingThreads, List.map_cons, List.map_nil, Term.subst_int, Term.subst_var, limited,
      asked.subst_eq belowList, determines.subst_eq_list (asked.known below) listed]
  refine scope.relates named ?_ ?_
  · rintro outer value ⟨asked, limited⟩
    exact ⟨asked.known below, values asked limited⟩
  · rintro outer _ ⟨holds, rfl⟩
    have asked := asked_extended below holds (stop outer)
    exact ⟨_, ⟨asked, if_pos rfl⟩, values asked (if_pos rfl)⟩

/-! ## Queries -/

/-- A loop over a list with a counter shares nothing. -/
theorem LoopSpec.closed_counting (element index max : Nat) (list first : Term) :
    (counting element index max list first).Closed .truth where
  plain := by simp [counting, iterators, LoopIterator.isParam]
  own := by simp [Term.truth]
  leaf := trivial

section

variable {machine : Machine} (idle : machine.bindings = .empty) (reachable : machine.procedures.Reachable)
  (free : ∀ number arity, machine.program.clausesFor (Procedures.nameOf number) arity = []) {text : String}
  {read : ReadTerm} {count : Nat} {known : List (Nat × Term)} {specs : Term}
  (asks : Asks text read count known (.binary "do" specs .truth)) {element index max : Nat} {list first : Term}
  (parsed : LoopSpec.ofTerm specs = .ok (.counting element index max list first))

include asks parsed in
theorem Asks.counting_below : (list.Below count ∧ element < count ∧ index < count) ∧ max < count := by
  have below : ∀ id ∈ (LoopSpec.counting element index max list first).occurrences, id < count := by
    intro id occurs
    apply asks.below
    simp [Term.binary, LoopSpec.mem_occurrences_of_ofTerm parsed occurs]
  simp only [LoopSpec.counting, LoopSpec.occurrences, LoopSpec.iterators, LoopIterator.occurrences, LoopIterator.toTerm,
    List.flatMap_cons, List.flatMap_nil, Term.occurrences_build, List.mem_append] at below
  refine ⟨⟨fun id occurs => below id ?_, below element ?_, below index ?_⟩, below max ?_⟩ <;> simp_all

include idle reachable free asks parsed in
/-- A query with a counter is answered from what its prelude does with the limit and from how its rounds end. -/
theorem Asks.responds_counting (different : element ≠ index) {items : List Term}
    (listed : list.subst (valueAmong known) = .list items) {word start last : Int64}
    (constant : first.constant? = some word) (before : start.toInt = word.toInt - 1)
    (total : last.toInt = start.toInt + items.length)
    (deep : ∀ limit, machine.settings.depthLimit = some limit → items.length < limit) (stop : (Nat → Term) → Term)
    (outcomes : List (List (Nat × Term))) (determined : ∀ known' ∈ outcomes, Determines known')
    (begins : ∀ (procedures : Procedures) (names : List Nat) (number : Nat → Nat) (begun : Bindings),
      begun.Scope count names number (Asked count known) → max ∈ names ∧ count + 2 ∈ names →
      ∃ between, Runs (Given machine.settings machine.program procedures) (List Answer) 0
          ((countingThreads element index max list start count).prelude.map (Term.rename number)) begun between ∧
        between.Scope count names number fun outer value =>
          Asked count known outer value ∧ value (count + 2) = stop outer)
    (ends : ∀ (way : LoopWay) (procedures : Procedures) (between : Bindings) (args : List Term),
      way.Ready (Given machine.settings machine.program procedures) (countingThreads element index max list start count)
        .truth → (∀ machine', Given machine.settings machine.program procedures machine' → machine'.Admits items.length) →
      args.length = 3 → between.Relates count args (Counted known stop [] last) →
      way.Presents (Given machine.settings machine.program procedures) (List Answer)
        (countingThreads element index max list start count) .truth args items.length between
        (outcomes.map fun known' after => after.Tells count (Known known')) none) :
    machine.Responds text (.ok (outcomes.map (valuedAnswer (shownNames read)))) := by
  obtain ⟨⟨belowList, inside⟩, _⟩ := asks.counting_below parsed
  show machine.Responds text ((none : Option RunError).elim (.ok (outcomes.map (valuedAnswer (shownNames read)))) .error)
  refine asks.responds_loop rfl parsed (LoopSpec.closed_counting element index max list first)
    (LoopSpec.threads_counting element index max list constant before count) idle reachable free determined ?_
  intro way procedures number names begun ready scope named
  have steady := steady_given machine.settings machine.program procedures
  have admits : ∀ deeper ≤ 0 + items.length, ∀ machine', Given machine.settings machine.program procedures machine' →
      machine'.Admits deeper := by
    intro deeper shallow machine' given limit bounded
    have := deep limit (given.settings ▸ bounded)
    omega
  have limited : LoopIterator.openLimit (.var (count + 2)) (.int start) (.var max) ∈
      (countingThreads element index max list start count).prelude := by simp [countingThreads]
  have taken : max ∈ names ∧ count + 2 ∈ names := by
    constructor <;> apply named _ (List.mem_append_left _ limited) <;>
      simp [LoopIterator.openLimit, Goal.evaluate, Term.binary, Term.unary]
  obtain ⟨between, runs, scope'⟩ := begins procedures names number begun scope taken
  have relates := relates_initial_counting asks.determines asks.known_below belowList listed
    (fun term member => named term (List.mem_append_right _ member)) scope'
  refine ⟨between, runs, ?_⟩
  refine presents_counted steady ready inside different asks.determines total admits rfl relates
    fun between' args arity relates' => ?_
  rw [Nat.zero_add]
  exact ends way procedures between' args ready (admits items.length (by omega)) arity relates'

end

/-- In every mode, a counter beside a `foreach` over a proper list reports the number of iterations if its limit is
unbound: the query has exactly one answer, in which the limit is the last number. If the limit is known, the query has
one answer if the last number is the greater one of the limit and the number before the first one, and none
otherwise. -/
theorem query_counting {machine : Machine} (idle : machine.bindings = .empty) (reachable : machine.procedures.Reachable)
    (free : ∀ number arity, machine.program.clausesFor (Procedures.nameOf number) arity = []) {text : String}
    {read : ReadTerm} {count : Nat} {known : List (Nat × Term)} {specs : Term}
    (asks : Asks text read count known (.binary "do" specs .truth)) {element index max : Nat} {list first : Term}
    (parsed : LoopSpec.ofTerm specs = .ok (.counting element index max list first)) (different : element ≠ index)
    {items : List Term} (listed : list.subst (valueAmong known) = .list items) {word : Int64}
    (constant : first.constant? = some word) (low : Fits (word.toInt - 1)) (high : Fits (word.toInt - 1 + items.length))
    (deep : ∀ limit, machine.settings.depthLimit = some limit → items.length < limit) :
    (max ∉ known.map Prod.fst → machine.Responds text (.ok [valuedAnswer (shownNames read)
      ((max, .int (Int64.ofInt (word.toInt - 1 + items.length))) :: known)])) ∧
    ∀ limit, (max, .int limit) ∈ known → machine.Responds text (.ok
      (if word.toInt - 1 + items.length = Max.max (word.toInt - 1) limit.toInt then [valuedAnswer (shownNames read) known]
      else [])) := by
  obtain ⟨start, before⟩ := exists_word low
  obtain ⟨last, total⟩ := exists_word high
  have exact : last.toInt = start.toInt + items.length := by omega
  have small := (asks.counting_below parsed).2
  have named : Int64.ofInt (word.toInt - 1 + items.length) = last := by rw [← total, Int64.ofInt_toInt]
  rw [named]
  constructor
  · intro other
    have ground : (Term.int last).occurrences = [] := rfl
    refine asks.responds_counting idle reachable free parsed different listed constant before exact deep
      (fun outer => outer max) [(max, .int last) :: known] (by simpa using asks.determines.cons other ground) ?_ ?_
    · intro procedures names number begun scope taken
      exact exists_runs_openLimit_unbound asks.determines scope asks.known_below small taken (steady_given _ _ _) _ _ other
    · intro way procedures between args ready admits arity relates
      exact presents_counted_open (steady_given _ _ _) ready asks.determines other admits arity relates
  · intro limit member
    obtain ⟨stop, greater⟩ : ∃ stop : Int64, stop.toInt = Max.max start.toInt limit.toInt := by
      by_cases less : start.toInt ≤ limit.toInt
      · exact ⟨limit, (max_eq_right less).symm⟩
      · exact ⟨start, (max_eq_left (by omega)).symm⟩
    have reached : (word.toInt - 1 + items.length = Max.max (word.toInt - 1) limit.toInt) = (last = stop) := by
      rw [← total, ← before, ← greater, Int64.toInt_inj]
    have shown : (if last = stop then [valuedAnswer (shownNames read) known] else []) =
        (if last = stop then [known] else []).map (valuedAnswer (shownNames read)) := by
      split <;> rfl
    rw [if_congr (iff_of_eq reached) rfl rfl, shown]
    refine asks.responds_counting idle reachable free parsed different listed constant before exact deep
      (fun _ => .int stop) (if last = stop then [known] else []) ?_ ?_ ?_
    · intro known' inside
      split at inside
      · rw [List.mem_singleton.mp inside]
        exact asks.determines
      · cases inside
    · intro procedures names number begun scope taken
      exact exists_runs_openLimit_known asks.determines scope asks.known_below taken (steady_given _ _ _) _ _ member greater
    · intro way procedures between args ready admits arity relates
      exact presents_counted_known (steady_given _ _ _) ready asks.determines admits arity relates

/-- Two items from the number 4 on, with an unbound limit, with a limit that the iterations reach, and with one that they
do not reach. -/
theorem query_counting_pair :
    Machine.Responds { settings := { mode := .interpreted, depthLimit := some 3 } }
        "Xs = [a, b], (foreach(_, Xs), count(I, 4, N) do true)"
        (.ok [⟨[("Xs", .list [.atom "a", .atom "b"]), ("I", .var 2), ("N", .int 5)]⟩]) ∧
      Machine.Responds {} "N is 2 + 3, (foreach(_, [a, Y]), count(I, 4, N) do true)"
        (.ok [⟨[("N", .int 5), ("Y", .var 2), ("I", .var 3)]⟩]) ∧
      Machine.Responds {} "N = 6, (foreach(_, [a, b]), count(I, 4, N) do true)" (.ok []) := by
  refine ⟨?_, ?_, ?_⟩
  · have asks : Asks "Xs = [a, b], (foreach(_, Xs), count(I, 4, N) do true)"
        ⟨.joinGoals ([.binary "=" (.var 0) (.list [.atom "a", .atom "b"])] ++
          [.binary "do" (LoopSpec.counting 1 2 3 (.var 0) (.int 4)).toTerm .truth]), [("Xs", 0), ("I", 2), ("N", 3)]⟩ 4
        [(0, .list [.atom "a", .atom "b"])]
        (.binary "do" (LoopSpec.counting 1 2 3 (.var 0) (.int 4)).toTerm .truth) :=
      ⟨by cbv, ⟨[_], .cons (.equal 0 (by decide)) .nil, rfl⟩, by decide⟩
    exact (query_counting rfl .empty (fun _ _ => rfl) asks (LoopSpec.ofTerm_toTerm _) (by decide) rfl rfl (by decide)
      (by decide) (by simp)).1 (by decide)
  · have asks : Asks "N is 2 + 3, (foreach(_, [a, Y]), count(I, 4, N) do true)"
        ⟨.joinGoals ([.binary "is" (.var 0) (.binary "+" (.int 2) (.int 3))] ++
          [.binary "do" (LoopSpec.counting 1 3 0 (.list [.atom "a", .var 2]) (.int 4)).toTerm .truth]),
          [("N", 0), ("Y", 2), ("I", 3)]⟩ 4
        [(0, .int 5)]
        (.binary "do" (LoopSpec.counting 1 3 0 (.list [.atom "a", .var 2]) (.int 4)).toTerm .truth) :=
      ⟨by cbv, ⟨[_], .cons (.evaluate 0 (by decide)) .nil, rfl⟩, by decide⟩
    have listed : (Term.list [.atom "a", .var 2]).subst (valueAmong [(0, .int 5)]) = .list [.atom "a", .var 2] := rfl
    exact (query_counting rfl .empty (fun _ _ => rfl) asks (LoopSpec.ofTerm_toTerm _) (by decide) listed rfl
      (by decide) (by decide) (by simp)).2 5 (by decide)
  · have asks : Asks "N = 6, (foreach(_, [a, b]), count(I, 4, N) do true)"
        ⟨.joinGoals ([.binary "=" (.var 0) (.int 6)] ++
          [.binary "do" (LoopSpec.counting 1 2 0 (.list [.atom "a", .atom "b"]) (.int 4)).toTerm .truth]),
          [("N", 0), ("I", 2)]⟩ 3
        [(0, .int 6)]
        (.binary "do" (LoopSpec.counting 1 2 0 (.list [.atom "a", .atom "b"]) (.int 4)).toTerm .truth) :=
      ⟨by cbv, ⟨[_], .cons (.equal 0 (by decide)) .nil, rfl⟩, by decide⟩
    have listed :
        (Term.list [.atom "a", .atom "b"]).subst (valueAmong [(0, .int 6)]) = .list [.atom "a", .atom "b"] := rfl
    exact (query_counting rfl .empty (fun _ _ => rfl) asks (LoopSpec.ofTerm_toTerm _) (by decide) listed rfl
      (by decide) (by decide) (by simp)).2 6 (by decide)

end HornLoops
