import HornLoops.Proofs.Loop.Formation
import HornLoops.Proofs.Machine.Folding
import HornLoops.Proofs.Machine.Numbering

/-!
# The library

What the predicates of the library are once a machine was started. Three of them are loops: `sum_list/2` and `reverse/2`
fold a list, and `numlist/3` numbers one. A query for such a predicate has one answer, in every mode and whatever was
consulted and asked before, as long as no clauses were added to the predicates of the library.
-/

namespace HornLoops

open Machine Bindings

/-! ## Clauses -/

/-- The iterators of `numlist/3`, as they are written. -/
def rangeIterators (low high list index : Nat) : Term :=
  .conjunction [.build "for" [.var index, .var low, .var high], .build "foreach" [.var index, .var list]]

theorem ofTerm_rangeIterators (low high list index : Nat) :
    LoopSpec.ofTerm (rangeIterators low high list index) = .ok (.numbering low high list index) := rfl

/-- The clauses of `append/3`. -/
def appendClauses : List Term := [
  .build "append" [.nil, .var 5, .var 5],
  .binary ":-" (.build "append" [.cons (.var 6) (.var 7), .var 8, .cons (.var 6) (.var 9)])
    (.build "append" [.var 7, .var 8, .var 9])]

/-- The clauses of `between/3`. -/
def betweenClauses : List Term := [
  .binary ":-" (.build "between" [.var 10, .var 11, .var 10]) (.binary "=<" (.var 10) (.var 11)),
  .binary ":-" (.build "between" [.var 12, .var 13, .var 14])
    (.conjunction [.binary "<" (.var 12) (.var 13), Goal.evaluate (.var 15) (Goal.plus (.var 12) 1),
      .build "between" [.var 15, .var 13, .var 14]])]

/-- The clauses of the predicates that are loops. -/
def loopClauses : List Term := [
  .binary ":-" (.build "sum_list" [.var 16, .var 17])
    (.binary "do" (LoopSpec.folding 16 17 18 19 (.int 0) (.var 20)).toTerm
      (Goal.evaluate (.var 20) (.binary "+" (.var 19) (.var 18)))),
  .binary ":-" (.build "numlist" [.var 21, .var 22, .var 23])
    (.binary "do" (rangeIterators 21 22 23 24) .truth),
  .binary ":-" (.build "reverse" [.var 25, .var 26])
    (.binary "do" (LoopSpec.folding 25 26 27 28 .nil (.cons (.var 27) (.var 28))).toTerm .truth)]

/-- The clauses of the library. -/
def libraryClauses : List Term := [
  .build "member" [.var 0, .cons (.var 0) (.var 1)],
  .binary ":-" (.build "member" [.var 2, .cons (.var 3) (.var 4)]) (.build "member" [.var 2, .var 4])] ++
  appendClauses ++ betweenClauses ++ loopClauses

set_option maxRecDepth 20000 in
theorem clausesOf_library : clausesOf libraryText = libraryClauses := by
  rw [clausesOf, readProgram, readWith_eq, show libraryText = String.ofList _ from rfl, String.toList_ofList]
  decide +kernel

/-- The body of `sum_list/2` shares nothing. -/
theorem closed_summing : (LoopSpec.folding 16 17 18 19 (.int 0) (.var 20)).Closed
    (Goal.evaluate (.var 20) (.binary "+" (.var 19) (.var 18))) where
  plain := by decide
  own := by decide
  leaf := ⟨rfl, by simp⟩

theorem closed_reversing : (LoopSpec.folding 25 26 27 28 .nil (.cons (.var 27) (.var 28))).Closed .truth where
  plain := by decide
  own := by decide
  leaf := trivial

theorem closed_numbering (low high list index : Nat) : (LoopSpec.numbering low high list index).Closed .truth where
  plain := by simp [LoopSpec.numbering, LoopSpec.iterators, LoopIterator.isParam]
  own := by simp [Term.truth]
  leaf := trivial

theorem loopless_append : ∀ clause ∈ appendClauses, Loopless (Program.headAndBody clause).2 := by
  simp only [appendClauses, List.forall_mem_cons, List.not_mem_nil, IsEmpty.forall_iff, implies_true, and_true]
  exact ⟨loopless_leaf trivial, loopless_leaf trivial⟩

theorem loopless_between : ∀ clause ∈ betweenClauses, Loopless (Program.headAndBody clause).2 := by
  simp only [betweenClauses, List.forall_mem_cons, List.not_mem_nil, IsEmpty.forall_iff, implies_true, and_true]
  refine ⟨loopless_leaf ⟨rfl, by simp⟩, loopless_conjunction ?_⟩
  simp only [List.forall_mem_cons, List.not_mem_nil, IsEmpty.forall_iff, implies_true, and_true]
  exact ⟨loopless_leaf ⟨rfl, by simp⟩, Goal.loopless_evaluate _ _, loopless_leaf trivial⟩

theorem consultable_library : ∀ clause ∈ libraryClauses, Consultable clause := by
  have called : ∀ clause ∈ libraryClauses,
      clause.unary? ":-" = none ∧ (Program.headAndBody clause).1.nameArity? ≠ none := by decide +kernel
  have preparable : ∀ clause ∈ libraryClauses, Preparable (Program.headAndBody clause).2 := by
    simp only [libraryClauses, List.forall_mem_append, List.forall_mem_cons, List.not_mem_nil, IsEmpty.forall_iff,
      implies_true, and_true]
    refine ⟨⟨⟨⟨.loopless (loopless_leaf trivial), .loopless (loopless_leaf ⟨rfl, by simp⟩)⟩, ?_⟩, ?_⟩, ?_⟩
    · exact fun clause member => .loopless (loopless_append clause member)
    · exact fun clause member => .loopless (loopless_between clause member)
    · simp only [loopClauses, List.forall_mem_cons, List.not_mem_nil, IsEmpty.forall_iff, implies_true, and_true]
      refine ⟨.loop (LoopSpec.ofTerm_toTerm _) closed_summing fun next => ⟨_, _, LoopSpec.threads_folding ..⟩,
        .loop (ofTerm_rangeIterators ..) (closed_numbering 21 22 23 24) fun next => ⟨_, _, LoopSpec.threads_numbering ..⟩,
        .loop (LoopSpec.ofTerm_toTerm _) closed_reversing fun next => ⟨_, _, LoopSpec.threads_folding ..⟩⟩
  exact fun clause member => ⟨(called clause member).1, (called clause member).2, preparable clause member⟩

/-! ## Machines that were started -/

variable {procedures : Procedures} {value word : Int64} {words : List Int64}

/-- A machine that was started has the clauses of the library. -/
theorem exists_start (settings : Settings) (reachable : procedures.Reachable) :
    ∃ count, (∀ clause ∈ libraryClauses, clause.Below count) ∧
      (start settings procedures).settings = settings ∧ (start settings procedures).bindings = .empty ∧
      procedures.Evolved (start settings procedures).procedures ∧
      List.Forall₂ (Clause.Renders (start settings procedures).procedures count) libraryClauses
        (start settings procedures).program.clauses := by
  obtain ⟨count, added, later, made, below, consulted, kept, empty, program, evolved, rendered⟩ :=
    exists_consult 0 clausesOf_library (List.cons_ne_nil _ _) consultable_library
      (show ({ settings := settings, procedures := procedures } : Machine).bindings = .empty from rfl) reachable.evolved
  have started : start settings procedures = later := by rw [start, consulted, after]
  rw [started]
  refine ⟨count, below, kept, empty, evolved, ?_⟩
  rw [program]
  exact rendered

/-- A machine at rest that still has the library it was started with: whatever was consulted and asked since then, the
predicates of the library have the same clauses, the names of procedures have none, and the store has only grown. -/
structure Machine.KeepsLibrary (procedures : Procedures) (machine : Machine) : Prop where
  /-- The store at the start was made by compiling. -/
  reachable : procedures.Reachable
  /-- No variables are left. -/
  bindings : machine.bindings = .empty
  /-- The store has grown. -/
  store : (start machine.settings procedures).procedures.Evolved machine.procedures
  /-- The predicates of the library are the same. -/
  clauses : ∀ name arity, (start machine.settings procedures).program.clausesFor name arity ≠ [] →
    machine.program.clausesFor name arity = (start machine.settings procedures).program.clausesFor name arity
  /-- No clauses are added to procedures. -/
  free : ∀ number arity, machine.program.clausesFor (Procedures.nameOf number) arity = []

namespace Machine.KeepsLibrary

variable {procedures : Procedures} {machine : Machine} (keeps : machine.KeepsLibrary procedures)
include keeps

variable {name : String} {arity : Nat} {terms : List Term}

/-- The clauses for a predicate of the library are made from those of the library. -/
theorem exists_clausesFor (own : libraryClauses.filter (isClauseFor name arity) = terms) (some : terms ≠ []) :
    ∃ count, (∀ clause ∈ libraryClauses, clause.Below count) ∧
      List.Forall₂ (Clause.Renders machine.procedures count) terms (machine.program.clausesFor name arity) := by
  obtain ⟨count, below, _, _, _, rendered⟩ := exists_start machine.settings keeps.reachable
  have own' := Clause.Renders.clausesFor rendered name arity
  rw [own] at own'
  refine ⟨count, below, ?_⟩
  rw [keeps.clauses name arity]
  · exact own'.imp fun term clause ⟨goal, renders, shape⟩ => ⟨goal, renders.evolved keeps.store, shape⟩
  · intro none
    rw [none, List.forall₂_nil_right_iff] at own'
    exact some own'

/-- The clauses for a predicate of the library without loops are those of the library. -/
theorem clausesFor_eq (own : libraryClauses.filter (isClauseFor name arity) = terms) (some : terms ≠ [])
    (loopless : ∀ term ∈ terms, Loopless (Program.headAndBody term).2) :
    machine.program.clausesFor name arity =
      terms.map fun term => .ofTerms (Program.headAndBody term).1 (Program.headAndBody term).2 := by
  obtain ⟨count, _, rendered⟩ := keeps.exists_clausesFor own some
  clear own some
  generalize machine.program.clausesFor name arity = clauses at rendered ⊢
  induction rendered with
  | nil => rfl
  | @cons term clause terms clauses first _ ih =>
    obtain ⟨own, rest⟩ := List.forall_mem_cons.mp loopless
    obtain ⟨goal, renders, rfl⟩ := first
    rw [renders.eq_of_loopless own, ih rest, List.map_cons]

/-- A predicate of the library that is a loop is one for the machine. -/
theorem exists_defines (name : String) (params : List Nat) {specs body : Term} {spec : LoopSpec}
    (own : libraryClauses.filter (isClauseFor name params.length) =
      [.binary ":-" (.build name (params.map .var)) (.binary "do" specs body)])
    (parsed : LoopSpec.ofTerm specs = .ok spec) (closed : spec.Closed body) (distinct : params.Nodup) :
    ∃ next threads between, spec.threads next = .ok threads between ∧ machine.Defines name params spec body next threads := by
  obtain ⟨count, below, rendered⟩ := keeps.exists_clausesFor own (List.cons_ne_nil _ _)
  obtain ⟨clause, rest, ⟨goal, renders, rfl⟩, none, clauses⟩ := List.forall₂_cons_left_iff.mp rendered
  rw [List.forall₂_nil_left_iff] at none
  subst none
  obtain ⟨next, threads, between, room, accepted, stands⟩ := Renders.exists_standsFor parsed renders
  have member := List.mem_of_mem_filter (own ▸ List.mem_singleton_self _)
  refine ⟨next, threads, between, accepted, distinct, fun id inside => ?_, closed, ⟨between, accepted⟩, goal, clauses, stands⟩
  refine Nat.lt_of_lt_of_le (below _ member id ?_) room
  simp only [Term.occurrences_binary, List.mem_append] at inside ⊢
  rcases inside with param | used | used
  · exact .inl (by simpa using param)
  · exact .inr (.inl (LoopSpec.mem_occurrences_of_ofTerm parsed used))
  · exact .inr (.inr used)

end Machine.KeepsLibrary

section

variable (settings : Settings) (reachable : procedures.Reachable)
include reachable

/-- The names of procedures have no clauses in the library. -/
theorem clausesFor_nameOf_start (number arity : Nat) :
    (start settings procedures).program.clausesFor (Procedures.nameOf number) arity = [] := by
  obtain ⟨count, _, _, _, _, rendered⟩ := exists_start settings reachable
  have own := Clause.Renders.clausesFor rendered (Procedures.nameOf number) arity
  have none : libraryClauses.filter (isClauseFor (Procedures.nameOf number) arity) = [] := by
    rw [List.filter_eq_nil_iff]
    intro clause member called
    have ordinary : ∀ clause ∈ libraryClauses, ∀ predicate ∈ (Program.headAndBody clause).1.nameArity?,
        predicate.1.toList.take 4 ≠ ['d', 'o', '_', '_'] := by decide +kernel
    exact Procedures.nameOf_ne (ordinary clause member _ (by simpa [isClauseFor] using called)) number rfl
  rw [none] at own
  exact List.forall₂_nil_left_iff.mp own

theorem settings_start : (start settings procedures).settings = settings := by
  obtain ⟨_, _, same, _⟩ := exists_start settings reachable
  exact same

/-- A machine that was started has the library. -/
theorem keepsLibrary_start : (start settings procedures).KeepsLibrary procedures := by
  obtain ⟨count, _, same, empty, evolved, _⟩ := exists_start settings reachable
  refine ⟨reachable, empty, ?_, fun name arity _ => ?_, clausesFor_nameOf_start settings reachable⟩
  · rw [same]
    exact evolved.refl
  · rw [same]

end

/-! ## Iterations -/

/-- The sum of two words, which is an error unless it fits. -/
def addWords (value word : Int64) : Except RunError Int64 := (Arithmetic.binary "+" value word).mapError .arithmetic

theorem addWords_eq_ok {sum : Int64} (exact : sum.toInt = value.toInt + word.toInt) :
    addWords value word = .ok sum := by
  show (Arithmetic.narrow (value.toInt + word.toInt)).mapError _ = _
  rw [Arithmetic.narrow_eq_ok_iff.mpr exact]
  rfl

theorem addWords_eq_error (large : ¬ Fits (value.toInt + word.toInt)) :
    addWords value word = .error (.arithmetic .overflow) := by
  show (Arithmetic.narrow (value.toInt + word.toInt)).mapError _ = _
  rw [Arithmetic.narrow, (word?_eq_none_iff _).mpr large]
  rfl

/-- If all partial sums fit, words are added up. -/
theorem foldlM_addWords (fits : ∀ early, early <+: words → Fits (value.toInt + (early.map Int64.toInt).sum)) :
    words.foldlM addWords value = .ok (.ofInt (value.toInt + (words.map Int64.toInt).sum)) := by
  induction words generalizing value with
  | nil => simp [pure, Except.pure]
  | cons word words ih =>
    obtain ⟨sum, exact⟩ := exists_word (by simpa using fits [word] (by simp))
    have further : ∀ early, early <+: words → Fits (sum.toInt + (early.map Int64.toInt).sum) := by
      intro early begins
      have longer := fits (word :: early) (by simpa using begins)
      rwa [List.map_cons, List.sum_cons, ← Int.add_assoc, ← exact] at longer
    rw [List.foldlM_cons, addWords_eq_ok exact]
    simp only [Bind.bind, Except.bind, ih further, exact, List.map_cons, List.sum_cons, Int.add_assoc]

/-- If a partial sum does not fit, there is no sum. -/
theorem foldlM_addWords_overflow {early : List Int64} (begins : early <+: words)
    (large : ¬ Fits (value.toInt + (early.map Int64.toInt).sum)) :
    words.foldlM addWords value = .error (.arithmetic .overflow) := by
  induction words generalizing value early with
  | nil =>
    rw [List.prefix_nil.mp begins] at large
    exact absurd (fits_toInt value) (by simpa using large)
  | cons word words ih =>
    rw [List.foldlM_cons]
    by_cases fits : Fits (value.toInt + word.toInt)
    · obtain ⟨sum, exact⟩ := exists_word fits
      rw [addWords_eq_ok exact]
      cases early with
      | nil => exact absurd (fits_toInt value) (by simpa using large)
      | cons first early =>
        obtain ⟨rfl, rest⟩ := List.cons_prefix_cons.mp begins
        rw [List.map_cons, List.sum_cons, ← Int.add_assoc, ← exact] at large
        exact ih rest large
    · rw [addWords_eq_error fits]
      rfl

section

variable {invariant : Machine → Prop} (steady : Steady invariant) (σ : Type) {item before after : Nat}
include steady

/-- An iteration that adds an item to the value before. -/
theorem iterates_addition (apart : item ≠ before ∧ after ≠ item ∧ after ≠ before) (value word : Int64) :
    Iterates invariant σ item before (.var after) (Goal.evaluate (.var after) (.binary "+" (.var before) (.var item)))
      (.int word) (.int value) ((addWords value word).map .int) := by
  have evaluated {values : Nat → Term} (isItem : values item = .int word) (isBefore : values before = .int value) :
      Arithmetic.evalWith (fun _ => .error .unbound) ((Term.binary "+" (.var before) (.var item)).subst values) =
        Arithmetic.binary "+" value word := by
    simp only [Term.subst_binary, Term.subst_var, isItem, isBefore]
    rfl
  cases added : Arithmetic.binary "+" value word with
  | error error =>
    rw [addWords, added]
    intro bindings limit depth names number fact scope told possible
    obtain ⟨outer, values, holds⟩ := possible
    refine ⟨by simp [Goal.evaluate, Term.binary, Term.truth], scope.evaluateFault holds (fun outer values holds => ?_) depth⟩
    rw [evaluated (told outer values holds).1 (told outer values holds).2, added]
  | ok sum =>
    rw [addWords, added]
    refine ⟨⟨fun id => if id = item then .int word else if id = before then .int value else .int sum, ?_, ?_, ?_⟩, ?_⟩
    · simp
    · simp [apart.1.symm]
    · simp [apart.2]
    · intro bindings limit depth names number fact scope named told possible
      obtain ⟨outer, values, holds, result⟩ := possible
      obtain ⟨between, attains, scope'⟩ := scope.evaluate (σ := σ) holds steady (named after (by simp)) result
        (fun outer values holds => by
          rw [evaluated (told outer values holds).1 (told outer values holds).2, added]) depth
      refine ⟨between, .step ?_ attains (.done between), scope'⟩
      simp [Goal.evaluate, Term.binary, Term.truth]

omit steady in
/-- An iteration that puts an item before the value before. -/
theorem iterates_cons (apart : item ≠ before) (element value : Term) :
    Iterates invariant σ item before (.cons (.var item) (.var before)) .truth element value (.ok (.cons element value)) := by
  have made {values : Nat → Term} (isItem : values item = element) (isBefore : values before = value) :
      (Term.cons (.var item) (.var before)).subst values = .cons element value := by
    simp [Term.cons, Term.binary, isItem, isBefore]
  refine ⟨⟨fun id => if id = item then element else value, if_pos rfl, if_neg apart.symm, ?_⟩, ?_⟩
  · exact made (if_pos rfl) (if_neg apart.symm)
  · intro bindings limit depth names number fact scope _ told _
    refine ⟨bindings, .skip (.done bindings), scope.congr fun outer values => ?_⟩
    constructor
    · intro holds
      exact ⟨holds, made (told outer values holds).1 (told outer values holds).2⟩
    · exact And.left

end

/-- Puts an item before those that are there. -/
def pushItem (made : List Term) (item : Term) : Except RunError (List Term) := .ok (item :: made)

/-- Items that are put before a list one after the other stand before it the other way round. -/
theorem foldlM_pushItem (items made : List Term) : items.foldlM pushItem made = .ok (items.reverse ++ made) := by
  induction items generalizing made with
  | nil => rfl
  | cons item items ih =>
    rw [List.foldlM_cons]
    show items.foldlM pushItem (item :: made) = _
    rw [ih]
    simp

/-! ## Queries -/

section

variable {procedures : Procedures} {machine : Machine} (keeps : machine.KeepsLibrary procedures) {text : String}
  {read : ReadTerm} {count : Nat} {known : List (Nat × Term)} {listed : Term} {id : Nat}
  (other : id ∉ known.map Prod.fst)
include keeps other

/-- A query for `sum_list/2` adds up words. -/
theorem Asks.responds_sumList (asks : Asks text read count known (.build "sum_list" [listed, .var id])) {words : List Int64}
    (valued : listed.subst (valueAmong known) = .list (words.map .int))
    (deep : ∀ limit, machine.settings.depthLimit = some limit → words.length + 1 < limit) :
    machine.Responds text ((words.foldlM addWords 0).map fun sum =>
      [valuedAnswer (shownNames read) ((id, .int sum) :: known)]) := by
  obtain ⟨next, threads, between, accepted, defined⟩ :=
    keeps.exists_defines "sum_list" [16, 17] (by decide +kernel) (LoopSpec.ofTerm_toTerm _) closed_summing (by decide)
  rw [LoopSpec.threads_folding] at accepted
  cases accepted
  exact asks.responds_folding (loopless_leaf ⟨rfl, by simp⟩) rfl keeps.bindings keeps.store.sound keeps.free defined
    (by decide) other valued (by simp) rfl rfl (by simp) deep
    fun _ value word => iterates_addition (steady_given _ _ _) _ (by decide) value word

/-- A query for `reverse/2` reverses a list. -/
theorem Asks.responds_reverse (asks : Asks text read count known (.build "reverse" [listed, .var id])) {items : List Term}
    (valued : listed.subst (valueAmong known) = .list items) (ground : ∀ item ∈ items, item.occurrences = [])
    (deep : ∀ limit, machine.settings.depthLimit = some limit → items.length + 1 < limit) :
    machine.Responds text (.ok [valuedAnswer (shownNames read) ((id, .list items.reverse) :: known)]) := by
  obtain ⟨next, threads, between, accepted, defined⟩ :=
    keeps.exists_defines "reverse" [25, 26] (by decide +kernel) (LoopSpec.ofTerm_toTerm _) closed_reversing (by decide)
  rw [LoopSpec.threads_folding] at accepted
  cases accepted
  have folded : items.foldlM pushItem [] = .ok items.reverse := by rw [foldlM_pushItem, List.append_nil]
  have response : .ok [valuedAnswer (shownNames read) ((id, .list items.reverse) :: known)] =
      (items.foldlM pushItem []).map fun made => [valuedAnswer (shownNames read) ((id, Term.list made) :: known)] := by
    rw [folded]
    rfl
  have iterates (procedures : Procedures) (made : List Term) (item : Term) :
      Iterates (Given machine.settings machine.program procedures) (List Answer) 27 28 (.cons (.var 27) (.var 28)) .truth
        item (.list made) ((pushItem made item).map Term.list) :=
    iterates_cons _ (by decide) item (.list made)
  rw [response]
  refine asks.responds_folding (loopless_leaf ⟨rfl, by simp⟩) rfl keeps.bindings keeps.store.sound keeps.free defined
    (by decide) other (by rwa [List.map_id']) ground (show Term.nil = Term.list [] from rfl) rfl (fun last ended => ?_) deep
    iterates
  rw [folded] at ended
  cases ended
  exact Term.occurrences_list (by simpa using ground)

end

/-- The predicates of the library that are loops compute what they name, in every mode. A query for the sum of words has
one answer if all partial sums fit, and ends with an overflow otherwise. A query for the words from one to another one
below the greatest has one answer, the list of these words in order, which is empty if there are none. A query for the
reverse of a list without variables has one answer. -/
theorem query_library_loops {procedures : Procedures} {machine : Machine} (keeps : machine.KeepsLibrary procedures)
    {text : String} {read : ReadTerm} {count : Nat} {known : List (Nat × Term)} {id : Nat}
    (other : id ∉ known.map Prod.fst) :
    (∀ (listed : Term) (words : List Int64), Asks text read count known (.build "sum_list" [listed, .var id]) →
      listed.subst (valueAmong known) = .list (words.map .int) →
      (∀ limit, machine.settings.depthLimit = some limit → words.length + 1 < limit) →
      ((∀ early, early <+: words → Fits (early.map Int64.toInt).sum) → machine.Responds text (.ok
        [valuedAnswer (shownNames read) ((id, .int (.ofInt (words.map Int64.toInt).sum)) :: known)])) ∧
      ((∃ early, early <+: words ∧ ¬ Fits (early.map Int64.toInt).sum) →
        machine.Responds text (.error (.arithmetic .overflow)))) ∧
    (∀ (low high : Term) (first last : Int64), Asks text read count known (.build "numlist" [low, high, .var id]) →
      low.subst (valueAmong known) = .int first → high.subst (valueAmong known) = .int last →
      last.toInt < 9223372036854775807 →
      (∀ limit, machine.settings.depthLimit = some limit → (wordsUpTo first last).length + 1 < limit) →
      machine.Responds text (.ok
        [valuedAnswer (shownNames read) ((id, .list ((wordsUpTo first last).map .int)) :: known)])) ∧
    ∀ (listed : Term) (items : List Term), Asks text read count known (.build "reverse" [listed, .var id]) →
      listed.subst (valueAmong known) = .list items → (∀ item ∈ items, item.occurrences = []) →
      (∀ limit, machine.settings.depthLimit = some limit → items.length + 1 < limit) →
      machine.Responds text (.ok [valuedAnswer (shownNames read) ((id, .list items.reverse) :: known)]) := by
  refine ⟨fun listed words asks valued deep => ?_, fun low high first last asks lowest highest room deep => ?_,
    fun listed items asks valued ground deep => asks.responds_reverse keeps other valued ground deep⟩
  · have responds := asks.responds_sumList keeps other valued deep
    refine ⟨fun fits => ?_, fun ⟨early, begins, large⟩ => ?_⟩
    · rw [foldlM_addWords (by simpa using fits)] at responds
      simpa [Except.map] using responds
    · rw [foldlM_addWords_overflow begins (by simpa using large)] at responds
      exact responds
  · obtain ⟨next, threads, between, accepted, defined⟩ :=
      keeps.exists_defines "numlist" [21, 22, 23] (by decide +kernel) (ofTerm_rangeIterators 21 22 23 24)
        (closed_numbering ..) (by decide)
    rw [LoopSpec.threads_numbering] at accepted
    cases accepted
    exact asks.responds_numbering rfl keeps.bindings keeps.store.sound keeps.free defined other lowest highest room deep

/-- A sum, an overflow, an empty range and a list that is reversed, on machines with the library only. -/
theorem query_library_loops_started :
    (start { mode := .interpreted, depthLimit := some 5 } {}).Responds "Xs = [1, 2, 3], sum_list(Xs, S)"
        (.ok [⟨[("Xs", .list [.int 1, .int 2, .int 3]), ("S", .int 6)]⟩]) ∧
      (start {} {}).Responds "sum_list([9223372036854775807, 1, -1], S)" (.error (.arithmetic .overflow)) ∧
      (start {} {}).Responds "numlist(3, 2, Ns)" (.ok [⟨[("Ns", .nil)]⟩]) ∧
      (start {} {}).Responds "reverse([a, f(b)], Ys)"
        (.ok [⟨[("Ys", .list [.build "f" [.atom "b"], .atom "a"])]⟩]) := by
  have started (settings : Settings) := keepsLibrary_start settings .empty
  have settled (settings : Settings) : (start settings {}).settings = settings := settings_start settings .empty
  refine ⟨?_, ?_, ?_, ?_⟩
  · have asks : Asks "Xs = [1, 2, 3], sum_list(Xs, S)"
        ⟨.joinGoals ([.binary "=" (.var 0) (.list [.int 1, .int 2, .int 3])] ++ [.build "sum_list" [.var 0, .var 1]]),
          [("Xs", 0), ("S", 1)]⟩ 2 [(0, .list [.int 1, .int 2, .int 3])] (.build "sum_list" [.var 0, .var 1]) :=
      ⟨by cbv, ⟨[_], .cons (.equal 0 (by decide)) .nil, rfl⟩, by decide⟩
    have fits : ∀ early ∈ List.inits [1, 2, 3], Fits (early.map Int64.toInt).sum := by decide
    exact ((query_library_loops (started _) (by decide)).1 _ [1, 2, 3] asks rfl (by simp [settled])).1
      fun early begins => fits early ((List.mem_inits _ _).mpr begins)
  · have asks : Asks "sum_list([9223372036854775807, 1, -1], S)"
        ⟨.joinGoals ([] ++ [.build "sum_list" [.list [.int 9223372036854775807, .int 1, .int (-1)], .var 0]]), [("S", 0)]⟩ 1
        [] (.build "sum_list" [.list [.int 9223372036854775807, .int 1, .int (-1)], .var 0]) :=
      ⟨by cbv, ⟨[], .nil, rfl⟩, by decide⟩
    have large : ¬ Fits (([9223372036854775807, 1] : List Int64).map Int64.toInt).sum := by decide
    exact ((query_library_loops (started _) (by decide)).1 _ [9223372036854775807, 1, -1] asks rfl (by simp [settled])).2
      ⟨[9223372036854775807, 1], ⟨[-1], rfl⟩, large⟩
  · have asks : Asks "numlist(3, 2, Ns)"
        ⟨.joinGoals ([] ++ [.build "numlist" [.int 3, .int 2, .var 0]]), [("Ns", 0)]⟩ 1 []
        (.build "numlist" [.int 3, .int 2, .var 0]) :=
      ⟨by cbv, ⟨[], .nil, rfl⟩, by decide⟩
    exact (query_library_loops (started _) (by decide)).2.1 _ _ 3 2 asks rfl rfl (by decide) (by simp [settled])
  · have asks : Asks "reverse([a, f(b)], Ys)"
        ⟨.joinGoals ([] ++ [.build "reverse" [.list [.atom "a", .build "f" [.atom "b"]], .var 0]]), [("Ys", 0)]⟩ 1 []
        (.build "reverse" [.list [.atom "a", .build "f" [.atom "b"]], .var 0]) :=
      ⟨by cbv, ⟨[], .nil, rfl⟩, by decide⟩
    exact (query_library_loops (started _) (by decide)).2.2 _ [.atom "a", .build "f" [.atom "b"]] asks rfl (by decide)
      (by simp [settled])

end HornLoops
