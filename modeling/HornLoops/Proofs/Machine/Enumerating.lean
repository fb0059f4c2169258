import HornLoops.Proofs.Machine.Library

/-!
# Predicates that enumerate

Two predicates of the library have more than one solution. A call of `between/3` tries the lower bound first and then
goes on with the bound after it, as long as there is one, so the bound after the greatest word is never computed. A call
of `append/3` splits a list before its first item first, and then behind it.
-/

namespace HornLoops

open Machine Bindings

/-! ## Comparisons -/

section

variable {σ : Type} {invariant : Machine → Prop} {bindings : Bindings} {limit : Nat} {names : List Nat}
  {number : Nat → Nat} {fact : (Nat → Term) → (Nat → Term) → Prop} (scope : bindings.Scope limit names number fact)
  {outer value : Nat → Term} (holds : fact outer value) {name : String} {test : Int → Int → Bool}
  (asked : ∀ left right, Goal.ofTerm (.compound name left [right]) = .ok (.builtin (Builtin.compare test left right)))
  {left right : Term} {word word' : Int64}
  (valued : ∀ outer value, fact outer value →
    Arithmetic.evalWith (fun _ => .error .unbound) (left.subst value) = .ok word ∧
    Arithmetic.evalWith (fun _ => .error .unbound) (right.subst value) = .ok word')
include scope holds asked valued

/-- A comparison that holds leaves everything as it was. -/
theorem Bindings.Scope.attains_compare (passes : test word.toInt word'.toInt = true) (depth : Nat) :
    Attains invariant (solving σ ((Term.binary name left right).rename number) depth) bindings bindings := by
  have copied : (Term.binary name left right).rename number = .compound name (left.rename number) [right.rename number] := by
    simp [Term.binary]
  rw [copied]
  refine .accepted (asked _ _) (fun fuel => ?_) depth
  rw [scope.compare holds valued, passes]
  rfl

/-- A comparison that does not hold has no solution. -/
theorem Bindings.Scope.presents_compare (fails : test word.toInt word'.toInt = false) (depth : Nat) :
    Presents invariant (solving σ ((Term.binary name left right).rename number) depth) bindings [] none := by
  have copied : (Term.binary name left right).rename number = .compound name (left.rename number) [right.rename number] := by
    simp [Term.binary]
  rw [copied]
  refine .refused (asked _ _) (fun fuel => ?_) depth
  rw [scope.compare holds valued, fails]
  rfl

end

/-! ## Words between bounds -/

/-- What the arguments of a call of `between/3` are: the bounds, and a variable of the query. -/
def Ranged (known : List (Nat × Term)) (id : Nat) (low high : Int64) (outer : Nat → Term) (values : List Term) : Prop :=
  Known known outer ∧ values = [.int low, .int high, outer id]

/-- The clause of `between/3` for the lower bound. -/
def betweenFirst : Clause := .ofTerms (.build "between" [.var 10, .var 11, .var 10]) (.binary "=<" (.var 10) (.var 11))

/-- The clause of `between/3` for the words after the lower bound. -/
def betweenLater : Clause :=
  .ofTerms (.build "between" [.var 12, .var 13, .var 14])
    (.conjunction [.binary "<" (.var 12) (.var 13), Goal.evaluate (.var 15) (Goal.plus (.var 12) 1),
      .build "between" [.var 15, .var 13, .var 14]])

section

variable {known : List (Nat × Term)} {id : Nat} {invariant : Machine → Prop} (steady : Steady invariant)
  (determines : Determines known) (other : id ∉ known.map Prod.fst) {limit : Nat} {σ : Type} {low high : Int64}
  {depth : Nat} {bindings : Bindings} {args : List Term} (relates : bindings.Relates limit args (Ranged known id low high))
include steady determines other relates

variable {solutions : List (Bindings → Prop)} {fault : Option RunError}

/-- The first clause presents the lower bound, if it is not above the other one. -/
theorem presents_betweenFirst {clauses : List Clause}
    (rest : Presents invariant (trying σ args depth clauses) bindings solutions fault) :
    Presents invariant (trying σ args depth (betweenFirst :: clauses)) bindings
      ((if low.toInt ≤ high.toInt then [low] else []).map
        (fun word after => after.Tells limit (Known ((id, .int word) :: known))) ++ solutions) fault := by
  have entered (outer value : Nat → Term) : Ranged known id low high outer
      ((Term.build "between" [.var 10, .var 11, .var 10]).args.map (Term.subst value)) ↔
        Known ((id, .int low) :: known) outer ∧ value 10 = .int low ∧ value 11 = .int high := by
    rw [known_cons, Ranged, Term.args_build]
    simp only [List.map_cons, List.map_nil, Term.subst_var]
    grind
  let valued (each : Nat) : Term := if each = 10 then .int low else .int high
  obtain ⟨outer, holds, _⟩ := (determines.cons other (show (Term.int low).occurrences = [] from rfl)).exists_known Term.var
  have possible := (entered outer valued).mpr ⟨holds, rfl, rfl⟩
  obtain ⟨begun, scope, _, tries⟩ := relates.enterClause steady (.build "between" [.var 10, .var 11, .var 10])
    (.binary "=<" (.var 10) (.var 11)) σ depth possible
  refine tries clauses _ solutions fault ?_ rest
  have compared (outer value : Nat → Term) (holds : Ranged known id low high outer
      ((Term.build "between" [.var 10, .var 11, .var 10]).args.map (Term.subst value))) :
      Arithmetic.evalWith (fun _ => .error .unbound) ((Term.var 10).subst value) = .ok low ∧
        Arithmetic.evalWith (fun _ => .error .unbound) ((Term.var 11).subst value) = .ok high := by
    obtain ⟨_, lower, upper⟩ := (entered outer value).mp holds
    rw [Term.subst_var, Term.subst_var, lower, upper]
    exact ⟨rfl, rfl⟩
  by_cases le : low.toInt ≤ high.toInt
  · rw [if_pos le]
    refine (scope.attains_compare possible (fun _ _ => rfl) compared (decide_eq_true le) (depth + 1)).presents steady ?_
    refine scope.tells fun outer => ⟨fun holds => ⟨valued, (entered outer valued).mpr ⟨holds, rfl, rfl⟩⟩, ?_⟩
    rintro ⟨value, holds⟩
    exact ((entered outer value).mp holds).1
  · rw [if_neg le]
    exact scope.presents_compare possible (fun _ _ => rfl) compared (decide_eq_false le) (depth + 1)

omit other in
/-- The second clause goes on from the word after the lower bound, if this is below the other one. -/
theorem presents_betweenLater (further : low.toInt < high.toInt → ∀ low' : Int64, low'.toInt = low.toInt + 1 →
      ∀ (between : Bindings) (args' : List Term), args'.length = 3 →
        between.Relates limit args' (Ranged known id low' high) →
        Presents invariant (solving σ (.build "between" args') (depth + 1)) between solutions fault)
    (finished : ¬ low.toInt < high.toInt → solutions = [] ∧ fault = none) :
    Presents invariant (trying σ args depth [betweenLater]) bindings solutions fault := by
  let head : Term := .build "between" [.var 12, .var 13, .var 14]
  let body : Term := .conjunction [.binary "<" (.var 12) (.var 13), Goal.evaluate (.var 15) (Goal.plus (.var 12) 1),
    .build "between" [.var 15, .var 13, .var 14]]
  have entered (outer value : Nat → Term) : Ranged known id low high outer (head.args.map (Term.subst value)) ↔
      Known known outer ∧ value 12 = .int low ∧ value 13 = .int high ∧ value 14 = outer id := by
    simp only [head, Ranged, Term.args_build, List.map_cons, List.map_nil, Term.subst_var]
    grind
  let valued (low' : Int64) (outer : Nat → Term) (each : Nat) : Term :=
    if each = 12 then .int low else if each = 13 then .int high else if each = 15 then .int low' else outer id
  obtain ⟨outer, holds, _⟩ := determines.exists_known Term.var
  have possible (low' : Int64) {outer : Nat → Term} (holds : Known known outer) :=
    (entered outer (valued low' outer)).mpr ⟨holds, rfl, rfl, rfl⟩
  obtain ⟨begun, scope, enters, _⟩ := relates.enterClause steady head body σ depth (possible low holds)
  have names : Term.varsAll [head, body] = [12, 13, 14, 15] := by decide +kernel
  have compared (outer value : Nat → Term) (holds : Ranged known id low high outer (head.args.map (Term.subst value))) :
      Arithmetic.evalWith (fun _ => .error .unbound) ((Term.var 12).subst value) = .ok low ∧
        Arithmetic.evalWith (fun _ => .error .unbound) ((Term.var 13).subst value) = .ok high := by
    obtain ⟨_, lower, upper, _⟩ := (entered outer value).mp holds
    rw [Term.subst_var, Term.subst_var, lower, upper]
    exact ⟨rfl, rfl⟩
  have asked (left right : Term) : Goal.ofTerm (.compound "<" left [right]) =
      .ok (.builtin (Builtin.compare (fun x y => x < y) left right)) := rfl
  refine enters invariant invariant solutions fault steady ?_
  rw [names] at scope ⊢
  let number := copyNumber [12, 13, 14, 15] bindings.size
  rw [Term.rename_conjunction]
  by_cases less : low.toInt < high.toInt
  · obtain ⟨low', succ⟩ := exists_succ less
    have evaluated (outer value : Nat → Term) (holds : Ranged known id low high outer (head.args.map (Term.subst value))) :
        Arithmetic.evalWith (fun _ => .error .unbound) ((Goal.plus (.var 12) 1).subst value) = .ok low' := by
      rw [Goal.subst_plus, Term.subst_var, ((entered outer value).mp holds).2.1]
      exact Goal.evalWith_plus succ
    have passes : Attains invariant (solving σ _ (depth + 1)) begun begun :=
      scope.attains_compare (possible low' holds) asked compared (decide_eq_true less) (depth + 1)
    obtain ⟨between, attains, scope'⟩ := scope.evaluate (σ := σ) (possible low' holds) steady (by decide : 15 ∈ _) rfl
      evaluated (depth + 1)
    have runs : Runs invariant σ (depth + 1) ([Term.binary "<" (.var 12) (.var 13),
        Goal.evaluate (.var 15) (Goal.plus (.var 12) 1)].map (Term.rename number)) begun between :=
      .step (by simp [Term.binary, Term.truth]) passes
        (.step (by simp [Goal.evaluate, Term.binary, Term.truth]) attains (.done between))
    have relates' : between.Relates limit ([.var 15, .var 13, .var 14].map (Term.rename number))
        (Ranged known id low' high) := by
      refine scope'.relates (by decide) ?_ ?_
      · rintro outer value ⟨holds, counted⟩
        obtain ⟨holds, _, upper, asked⟩ := (entered outer value).mp holds
        exact ⟨holds, by simp [counted, upper, asked]⟩
      · rintro outer _ ⟨holds, rfl⟩
        exact ⟨valued low' outer, ⟨possible low' holds, rfl⟩, by simp [valued]⟩
    refine runs.presents steady ?_ (further less low' succ between _ rfl relates')
    simp [Term.build, Term.truth]
  · obtain ⟨rfl, rfl⟩ := finished less
    have fails : Presents invariant (solving σ _ (depth + 1)) begun [] none :=
      scope.presents_compare (possible low holds) asked compared (decide_eq_false less) (depth + 1)
    refine (Runs.done begun).fails steady ?_ fails _
    simp [Term.binary, Term.truth]

/-- A call presents the lower bound, and what follows it. -/
theorem presents_betweenCall
    (clauses : ∀ machine, invariant machine → machine.program.clausesFor "between" 3 = [betweenFirst, betweenLater])
    (admits : ∀ machine, invariant machine → machine.Admits depth) (arity : args.length = 3) {words : List Int64}
    (further : low.toInt < high.toInt → ∀ low' : Int64, low'.toInt = low.toInt + 1 →
      ∀ (between : Bindings) (args' : List Term), args'.length = 3 →
        between.Relates limit args' (Ranged known id low' high) →
        Presents invariant (solving σ (.build "between" args') (depth + 1)) between
          (words.map fun word after => after.Tells limit (Known ((id, .int word) :: known))) none)
    (finished : ¬ low.toInt < high.toInt → words = []) :
    Presents invariant (solving σ (.build "between" args) depth) bindings
      (((if low.toInt ≤ high.toInt then [low] else []) ++ words).map fun word after =>
        after.Tells limit (Known ((id, .int word) :: known))) none := by
  obtain ⟨lower, upper, word, rfl⟩ := List.length_eq_three.mp arity
  refine Presents.calling steady rfl (fun machine holds => clauses machine holds) admits ?_
  rw [List.map_append]
  refine presents_betweenFirst steady determines other relates (presents_betweenLater steady determines relates further ?_)
  intro last
  rw [finished last]
  exact ⟨rfl, rfl⟩

end

variable {low high : Int64} {known : List (Nat × Term)} {invariant : Machine → Prop} {limit depth : Nat} {σ : Type}
  {bindings : Bindings} {args : List Term}

theorem wordsUpTo_of_le (le : high.toInt ≤ low.toInt) :
    wordsUpTo low high = if low.toInt ≤ high.toInt then [low] else [] := by
  by_cases same : low.toInt ≤ high.toInt
  · have one : (high.toInt + 1 - low.toInt).toNat = 1 := by omega
    rw [wordsUpTo, one, if_pos same]
    simp [consecutive]
  · have none : (high.toInt + 1 - low.toInt).toNat = 0 := by omega
    rw [wordsUpTo, none, if_neg same]
    rfl

theorem wordsUpTo_succ {low' : Int64} (less : low.toInt < high.toInt) (succ : low'.toInt = low.toInt + 1) :
    wordsUpTo low high = low :: wordsUpTo low' high := by
  have more : (high.toInt + 1 - low.toInt).toNat = (high.toInt + 1 - low'.toInt).toNat + 1 := by omega
  rw [wordsUpTo, wordsUpTo, more, consecutive_succ succ]

/-- A call of `between/3` presents the words from the lower bound up to the other one, in order. -/
theorem presents_between {id : Nat} (steady : Steady invariant)
    (clauses : ∀ machine, invariant machine → machine.program.clausesFor "between" 3 = [betweenFirst, betweenLater])
    (determines : Determines known) (other : id ∉ known.map Prod.fst) {size : Nat}
    (distance : size = (high.toInt - low.toInt).toNat)
    (admits : ∀ deeper ≤ depth + size, ∀ machine, invariant machine → machine.Admits deeper) (arity : args.length = 3)
    (relates : bindings.Relates limit args (Ranged known id low high)) :
    Presents invariant (solving σ (.build "between" args) depth) bindings
      ((wordsUpTo low high).map fun word after => after.Tells limit (Known ((id, .int word) :: known))) none := by
  induction size generalizing low depth bindings args with
  | zero =>
    have le : high.toInt ≤ low.toInt := by omega
    rw [wordsUpTo_of_le le, ← List.append_nil (if low.toInt ≤ high.toInt then [low] else [])]
    exact presents_betweenCall steady determines other relates clauses (admits depth (by omega)) arity
      (fun less => absurd less (by omega)) fun _ => rfl
  | succ size ih =>
    have less : low.toInt < high.toInt := by omega
    obtain ⟨low', succ⟩ := exists_succ less
    have shape : wordsUpTo low high = (if low.toInt ≤ high.toInt then [low] else []) ++ wordsUpTo low' high := by
      rw [wordsUpTo_succ less succ, if_pos (Int.le_of_lt less), List.singleton_append]
    rw [shape]
    refine presents_betweenCall steady determines other relates clauses (admits depth (by omega)) arity
      (fun _ low'' succ' between args' arity' relates' => ?_) fun finished => absurd less finished
    obtain rfl : low'' = low' := Int64.toInt_inj.mp (by omega)
    exact ih (by omega) (fun deeper shallow => admits deeper (by omega)) arity' relates'

/-! ## Splits of a list -/

/-- What the arguments of a call of `append/3` are when some items were passed: what is open of the first list, the second
list, and the rest of the list that is split. -/
def Splitting (known : List (Nat × Term)) (xs ys : Nat) (front rest : List Term) (outer : Nat → Term)
    (values : List Term) : Prop :=
  Known known outer ∧ ∃ tail, outer xs = .listBefore front tail ∧ values = [tail, outer ys, .list rest]

/-- The clause of `append/3` for a split before the first item. -/
def appendFirst : Clause := .ofTerms (.build "append" [.nil, .var 5, .var 5]) .truth

/-- The clause of `append/3` for splits behind the first item. -/
def appendLater : Clause :=
  .ofTerms (.build "append" [.cons (.var 6) (.var 7), .var 8, .cons (.var 6) (.var 9)])
    (.build "append" [.var 7, .var 8, .var 9])

/-- What is known of the two lists after a split. -/
def splitKnown (known : List (Nat × Term)) (xs ys : Nat) (split : List Term × List Term) : List (Nat × Term) :=
  (xs, .list split.1) :: (ys, .list split.2) :: known

/-- All splits of a list with some items in front of it, from the shortest first part on. -/
def splitsAfter (front rest : List Term) : List (List Term × List Term) :=
  (List.range (rest.length + 1)).map fun size => (front ++ rest.take size, rest.drop size)

theorem splitsAfter_nil (front : List Term) : splitsAfter front [] = [(front, [])] := by
  simp [splitsAfter]

theorem splitsAfter_cons (front : List Term) (item : Term) (rest : List Term) :
    splitsAfter front (item :: rest) = (front, item :: rest) :: splitsAfter (front ++ [item]) rest := by
  rw [splitsAfter, splitsAfter, List.length_cons, List.range_succ_eq_map, List.map_cons, List.map_map]
  congr 1
  · simp
  · refine List.map_congr_left fun size _ => ?_
    simp

section

variable {known : List (Nat × Term)} {xs ys : Nat} {invariant : Machine → Prop} (steady : Steady invariant)
  (determines : Determines known) (otherX : xs ∉ known.map Prod.fst) (otherY : ys ∉ known.map Prod.fst) (apart : xs ≠ ys)
  {limit : Nat} {σ : Type} {front rest : List Term} {depth : Nat} {bindings : Bindings} {args : List Term}
  (relates : bindings.Relates limit args (Splitting known xs ys front rest))

include determines otherX otherY apart in
theorem Determines.splitKnown (groundFront : ∀ item ∈ front, item.occurrences = [])
    (groundRest : ∀ item ∈ rest, item.occurrences = []) : Determines (splitKnown known xs ys (front, rest)) := by
  refine (determines.cons otherY (Term.occurrences_list groundRest)).cons ?_ (Term.occurrences_list groundFront)
  simpa [apart] using otherX

variable {solutions : List (Bindings → Prop)} {fault : Option RunError}

include steady determines otherX otherY apart relates in
/-- The first clause presents the split before the first item. -/
theorem presents_appendFirst (groundFront : ∀ item ∈ front, item.occurrences = [])
    (groundRest : ∀ item ∈ rest, item.occurrences = []) {clauses : List Clause}
    (others : Presents invariant (trying σ args depth clauses) bindings solutions fault) :
    Presents invariant (trying σ args depth (appendFirst :: clauses)) bindings
      ((fun after => after.Tells limit (Known (splitKnown known xs ys (front, rest)))) :: solutions) fault := by
  have entered (outer value : Nat → Term) : Splitting known xs ys front rest outer
      ((Term.build "append" [.nil, .var 5, .var 5]).args.map (Term.subst value)) ↔
        Known (splitKnown known xs ys (front, rest)) outer ∧ value 5 = .list rest := by
    rw [splitKnown, known_cons, known_cons, Splitting, Term.args_build]
    simp only [List.map_cons, List.map_nil, Term.subst_var, Term.list]
    grind [Term.nil, Term.subst_atom]
  obtain ⟨outer, holds, _⟩ :=
    (determines.splitKnown otherX otherY apart groundFront groundRest).exists_known Term.var
  have possible := (entered outer fun _ => .list rest).mpr ⟨holds, rfl⟩
  obtain ⟨begun, scope, _, tries⟩ :=
    relates.enterClause steady (.build "append" [.nil, .var 5, .var 5]) .truth σ depth possible
  refine tries clauses [_] solutions fault ((Attains.truth begun (depth + 1)).presents steady ?_) others
  refine scope.tells fun outer => ⟨fun holds => ⟨fun _ => .list rest, (entered outer _).mpr ⟨holds, rfl⟩⟩, ?_⟩
  rintro ⟨value, holds⟩
  exact ((entered outer value).mp holds).1

include determines otherX relates in
/-- The second clause does not apply to an empty list. -/
theorem presents_appendLater_nil (shape : rest = []) :
    Presents invariant (trying σ args depth [appendLater]) bindings [] none := by
  subst shape
  refine relates.skipClause ?_ (.noClauses bindings args depth)
  obtain ⟨outer, holds, free⟩ := determines.exists_known fun _ => .listBefore front (.cons .nil .nil)
  refine ⟨[.cons (.var 6) (.var 7), .var 8], .cons (.var 6) (.var 9), [], rfl,
    ⟨outer, fun id => if id = 8 then outer ys else .nil, _, ⟨holds, .cons .nil .nil, free xs otherX, rfl⟩, ?_⟩, ?_⟩
  · simp [Term.cons, Term.binary]
  · rintro outer value values ⟨_, tail, _, rfl⟩ _
    refine ⟨.nil, rfl, rfl, rfl, ?_, .inr rfl⟩
    simp [Term.nil, Term.cons, Term.binary]

include steady determines otherX relates in
/-- The second clause goes on behind the first item. -/
theorem presents_appendLater_cons {item : Term} {rest' : List Term} (shape : rest = item :: rest')
    (further : ∀ (between : Bindings) (args' : List Term), args'.length = 3 →
      between.Relates limit args' (Splitting known xs ys (front ++ [item]) rest') →
      Presents invariant (solving σ (.build "append" args') (depth + 1)) between solutions fault) :
    Presents invariant (trying σ args depth [appendLater]) bindings solutions fault := by
  subst shape
  let head : Term := .build "append" [.cons (.var 6) (.var 7), .var 8, .cons (.var 6) (.var 9)]
  have entered (outer value : Nat → Term) :
      Splitting known xs ys front (item :: rest') outer (head.args.map (Term.subst value)) ↔
        Known known outer ∧ outer xs = .listBefore (front ++ [item]) (value 7) ∧ value 6 = item ∧
          value 8 = outer ys ∧ value 9 = .list rest' := by
    have values : head.args.map (Term.subst value) =
        [.cons (value 6) (value 7), value 8, .cons (value 6) (value 9)] := by
      simp [head, Term.args_build, Term.cons, Term.binary]
    have listed : Term.list (item :: rest') = .cons item (.list rest') := rfl
    rw [Splitting, values, listed, Term.listBefore_concat]
    simp only [Term.cons, Term.binary]
    grind
  let valued (tail : Term) (outer : Nat → Term) (each : Nat) : Term :=
    if each = 6 then item else if each = 7 then tail else if each = 8 then outer ys else .list rest'
  have possible {tail : Term} {outer : Nat → Term} (holds : Known known outer)
      (listed : outer xs = .listBefore (front ++ [item]) tail) :
      Splitting known xs ys front (item :: rest') outer (head.args.map (Term.subst (valued tail outer))) :=
    (entered outer _).mpr ⟨holds, listed, rfl, rfl, rfl⟩
  obtain ⟨outer, holds, free⟩ := determines.exists_known fun _ => .listBefore (front ++ [item]) .nil
  obtain ⟨begun, scope, enters, _⟩ := relates.enterClause steady head (.build "append" [.var 7, .var 8, .var 9]) σ depth
    (possible holds (free xs otherX))
  refine enters invariant invariant solutions fault steady ?_
  rw [Term.rename_build]
  refine further begun _ rfl (scope.relates (by decide +kernel) ?_ ?_)
  · intro outer value holds
    obtain ⟨holds, listed, _, second, last⟩ := (entered outer value).mp holds
    exact ⟨holds, value 7, listed, by simp [second, last]⟩
  · rintro outer _ ⟨holds, tail, listed, rfl⟩
    exact ⟨valued tail outer, possible holds listed, by simp [valued]⟩

end

/-- A call of `append/3` presents all splits of a list, from the shortest first part on. -/
theorem presents_append {xs ys : Nat} (steady : Steady invariant)
    (clauses : ∀ machine, invariant machine → machine.program.clausesFor "append" 3 = [appendFirst, appendLater])
    (determines : Determines known) (otherX : xs ∉ known.map Prod.fst) (otherY : ys ∉ known.map Prod.fst)
    (apart : xs ≠ ys) {front rest : List Term} (groundFront : ∀ item ∈ front, item.occurrences = [])
    (groundRest : ∀ item ∈ rest, item.occurrences = [])
    (admits : ∀ deeper ≤ depth + rest.length, ∀ machine, invariant machine → machine.Admits deeper)
    (arity : args.length = 3) (relates : bindings.Relates limit args (Splitting known xs ys front rest)) :
    Presents invariant (solving σ (.build "append" args) depth) bindings
      ((splitsAfter front rest).map fun split after => after.Tells limit (Known (splitKnown known xs ys split))) none := by
  induction rest generalizing front depth bindings args with
  | nil =>
    obtain ⟨first, second, whole, rfl⟩ := List.length_eq_three.mp arity
    rw [splitsAfter_nil]
    refine Presents.calling steady rfl (fun machine holds => clauses machine holds) (admits depth (by omega)) ?_
    exact presents_appendFirst steady determines otherX otherY apart relates groundFront groundRest
      (presents_appendLater_nil determines otherX relates rfl)
  | cons item rest ih =>
    obtain ⟨first, second, whole, rfl⟩ := List.length_eq_three.mp arity
    obtain ⟨groundItem, groundOthers⟩ := List.forall_mem_cons.mp groundRest
    have groundLonger : ∀ each ∈ front ++ [item], each.occurrences = [] :=
      List.forall_mem_append.mpr ⟨groundFront, List.forall_mem_singleton.mpr groundItem⟩
    rw [splitsAfter_cons, List.map_cons]
    refine Presents.calling steady rfl (fun machine holds => clauses machine holds) (admits depth (by omega)) ?_
    refine presents_appendFirst steady determines otherX otherY apart relates groundFront groundRest
      (presents_appendLater_cons steady determines otherX relates rfl fun between args' arity' relates' => ?_)
    refine ih groundLonger groundOthers (fun deeper shallow => admits deeper ?_) arity' relates'
    rw [List.length_cons]
    omega

/-! ## Queries -/

section

variable {procedures : Procedures} {machine : Machine} (keeps : machine.KeepsLibrary procedures) {text : String}
  {read : ReadTerm} {count : Nat} {known : List (Nat × Term)}
include keeps

/-- A query for a call has an answer for each item of a list if the call presents what is then known. -/
theorem Asks.responds_each {α : Type} {items : List α} {outcome : α → List (Nat × Term)} {name : String}
    {args : List Term} (asks : Asks text read count known (.build name args)) (loopless : Loopless (.build name args))
    (other : Term.build name args ≠ .truth) (determined : ∀ item ∈ items, Determines (outcome item))
    (presents : ∀ after : Bindings, after.Relates count args (Passed known args) →
      Presents (Given machine.settings machine.program machine.procedures) (solving (List Answer) (.build name args) 0)
        after (items.map fun item after => after.Tells count (Known (outcome item))) none) :
    machine.Responds text (.ok (items.map fun item => valuedAnswer (shownNames read) (outcome item))) := by
  have answers : items.map (fun item => valuedAnswer (shownNames read) (outcome item)) =
      (items.map outcome).map (valuedAnswer (shownNames read)) := by
    rw [List.map_map]
    rfl
  rw [answers]
  show machine.Responds text ((none : Option RunError).elim (.ok _) .error)
  refine asks.responds_call loopless other keeps.bindings (List.forall_mem_map.mpr determined) fun after relates =>
    ⟨_, steady_given machine.settings machine.program machine.procedures, ?_⟩
  rw [List.map_map]
  exact presents after relates

/-- A query for `between/3` has the answers that its calls present. -/
theorem Asks.responds_between {low high : Term} {id : Nat} {first last : Int64}
    (asks : Asks text read count known (.build "between" [low, high, .var id])) (other : id ∉ known.map Prod.fst)
    (lowest : low.subst (valueAmong known) = .int first) (highest : high.subst (valueAmong known) = .int last)
    (deep : ∀ limit, machine.settings.depthLimit = some limit → 0 < limit ∧ (wordsUpTo first last).length ≤ limit) :
    machine.Responds text (.ok
      ((wordsUpTo first last).map fun word => valuedAnswer (shownNames read) ((id, .int word) :: known))) := by
  have steady := steady_given machine.settings machine.program machine.procedures
  have clauses : machine.program.clausesFor "between" 3 = [betweenFirst, betweenLater] :=
    keeps.clausesFor_eq (by decide +kernel : _ = betweenClauses) (List.cons_ne_nil _ _) loopless_between
  refine asks.responds_each keeps trivial (by simp [Term.build, Term.truth])
    (fun word _ => asks.determines.cons other rfl) fun after relates => ?_
  have relates' : after.Relates count [low, high, .var id] (Ranged known id first last) := by
    refine relates.congr fun outer values => and_congr_right fun holds => ?_
    simp only [List.map_cons, List.map_nil, Term.subst_var, ← asks.determines.subst_subst holds low,
      ← asks.determines.subst_subst holds high, lowest, highest, Term.subst_int]
  refine presents_between steady (fun machine' given => ?_) asks.determines other rfl (fun deeper shallow machine' given => ?_)
    rfl relates'
  · rw [given.program, clauses]
  · intro limit bounded
    have := deep limit (given.settings ▸ bounded)
    have size : (wordsUpTo first last).length = (last.toInt + 1 - first.toInt).toNat := by simp [wordsUpTo, consecutive]
    omega

/-- A query for `append/3` has the answers that its calls present. -/
theorem Asks.responds_append {xs ys : Nat} {whole : Term} {items : List Term}
    (asks : Asks text read count known (.build "append" [.var xs, .var ys, whole])) (otherX : xs ∉ known.map Prod.fst)
    (otherY : ys ∉ known.map Prod.fst) (apart : xs ≠ ys) (valued : whole.subst (valueAmong known) = .list items)
    (ground : ∀ item ∈ items, item.occurrences = [])
    (deep : ∀ limit, machine.settings.depthLimit = some limit → items.length < limit) :
    machine.Responds text (.ok ((splitsAfter [] items).map fun split =>
      valuedAnswer (shownNames read) (splitKnown known xs ys split))) := by
  have steady := steady_given machine.settings machine.program machine.procedures
  have clauses : machine.program.clausesFor "append" 3 = [appendFirst, appendLater] :=
    keeps.clausesFor_eq (by decide +kernel : _ = appendClauses) (List.cons_ne_nil _ _) loopless_append
  have determined : ∀ split ∈ splitsAfter [] items, Determines (splitKnown known xs ys split) := by
    simp only [splitsAfter, List.forall_mem_map]
    intro size _
    refine asks.determines.splitKnown otherX otherY apart (fun item member => ground item ?_) fun item member => ground item ?_
    · exact List.mem_of_mem_take (by simpa using member)
    · exact List.mem_of_mem_drop member
  refine asks.responds_each keeps trivial (by simp [Term.build, Term.truth]) determined fun after relates => ?_
  have listed {outer : Nat → Term} (holds : Known known outer) : whole.subst outer = .list items := by
    rw [asks.determines.subst_eq_list holds valued]
    congr 1
    rw [List.map_congr_left fun item member => Term.subst_eq_self (by simp [ground item member]), List.map_id']
  have relates' : after.Relates count [.var xs, .var ys, whole] (Splitting known xs ys [] items) := by
    refine relates.congr fun outer values => and_congr_right fun holds => ?_
    simp [listed holds, Term.listBefore]
  refine presents_append steady (fun machine' given => ?_) asks.determines otherX otherY apart (by simp) ground
    (fun deeper shallow machine' given => ?_) rfl relates'
  · rw [given.program, clauses]
  · intro limit bounded
    have := deep limit (given.settings ▸ bounded)
    omega

end

/-- The predicates of the library that are recursive enumerate exactly. A query for the words between two words has one
answer for each of them, in order, and finishes without an error even if the upper one is the greatest word. A query for
the lists that make up a list of `n` items without variables has `n + 1` answers, in the order of the lengths of the
first list. -/
theorem query_library_enumerations {procedures : Procedures} {machine : Machine} (keeps : machine.KeepsLibrary procedures)
    {text : String} {read : ReadTerm} {count : Nat} {known : List (Nat × Term)} :
    (∀ (low high : Term) (id : Nat) (first last : Int64),
      Asks text read count known (.build "between" [low, high, .var id]) → id ∉ known.map Prod.fst →
      low.subst (valueAmong known) = .int first → high.subst (valueAmong known) = .int last →
      (∀ limit, machine.settings.depthLimit = some limit → 0 < limit ∧ (wordsUpTo first last).length ≤ limit) →
      machine.Responds text (.ok
        ((wordsUpTo first last).map fun word => valuedAnswer (shownNames read) ((id, .int word) :: known)))) ∧
    ∀ (xs ys : Nat) (whole : Term) (items : List Term),
      Asks text read count known (.build "append" [.var xs, .var ys, whole]) → xs ∉ known.map Prod.fst →
      ys ∉ known.map Prod.fst → xs ≠ ys → whole.subst (valueAmong known) = .list items →
      (∀ item ∈ items, item.occurrences = []) →
      (∀ limit, machine.settings.depthLimit = some limit → items.length < limit) →
      machine.Responds text (.ok ((List.range (items.length + 1)).map fun size =>
        valuedAnswer (shownNames read) ((xs, .list (items.take size)) :: (ys, .list (items.drop size)) :: known))) := by
  refine ⟨fun low high id first last asks other lowest highest deep =>
    asks.responds_between keeps other lowest highest deep, ?_⟩
  intro xs ys whole items asks otherX otherY apart valued ground deep
  have responds := asks.responds_append keeps otherX otherY apart valued ground deep
  rwa [splitsAfter, List.map_map] at responds

/-- The greatest two words, no words, and the splits of a list that the query names first. -/
theorem query_library_enumerations_started :
    (start { mode := .interpreted, depthLimit := some 2 } {}).Responds "between(9223372036854775806, 9223372036854775807, X)"
        (.ok [⟨[("X", .int 9223372036854775806)]⟩, ⟨[("X", .int 9223372036854775807)]⟩]) ∧
      (start {} {}).Responds "between(1, 0, X)" (.ok []) ∧
      (start {} {}).Responds "Zs = [a, f(b)], append(Xs, Ys, Zs)" (.ok
        [⟨[("Zs", .list [.atom "a", .build "f" [.atom "b"]]), ("Xs", .nil),
            ("Ys", .list [.atom "a", .build "f" [.atom "b"]])]⟩,
          ⟨[("Zs", .list [.atom "a", .build "f" [.atom "b"]]), ("Xs", .list [.atom "a"]),
            ("Ys", .list [.build "f" [.atom "b"]])]⟩,
          ⟨[("Zs", .list [.atom "a", .build "f" [.atom "b"]]), ("Xs", .list [.atom "a", .build "f" [.atom "b"]]),
            ("Ys", .nil)]⟩]) := by
  have started (settings : Settings) := keepsLibrary_start settings .empty
  have settled (settings : Settings) : (start settings {}).settings = settings := settings_start settings .empty
  refine ⟨?_, ?_, ?_⟩
  · have asks : Asks "between(9223372036854775806, 9223372036854775807, X)"
        ⟨.joinGoals ([] ++ [.build "between" [.int 9223372036854775806, .int 9223372036854775807, .var 0]]), [("X", 0)]⟩ 1
        [] (.build "between" [.int 9223372036854775806, .int 9223372036854775807, .var 0]) :=
      ⟨by cbv, ⟨[], .nil, rfl⟩, by decide⟩
    have size : (wordsUpTo 9223372036854775806 9223372036854775807).length = 2 := by decide
    exact (query_library_enumerations (started _)).1 _ _ 0 9223372036854775806 9223372036854775807 asks (by decide) rfl rfl
      (by simp [settled, size])
  · have asks : Asks "between(1, 0, X)" ⟨.joinGoals ([] ++ [.build "between" [.int 1, .int 0, .var 0]]), [("X", 0)]⟩ 1 []
        (.build "between" [.int 1, .int 0, .var 0]) :=
      ⟨by cbv, ⟨[], .nil, rfl⟩, by decide⟩
    exact (query_library_enumerations (started _)).1 _ _ 0 1 0 asks (by decide) rfl rfl (by simp [settled])
  · have asks : Asks "Zs = [a, f(b)], append(Xs, Ys, Zs)"
        ⟨.joinGoals ([.binary "=" (.var 0) (.list [.atom "a", .build "f" [.atom "b"]])] ++
          [.build "append" [.var 1, .var 2, .var 0]]), [("Zs", 0), ("Xs", 1), ("Ys", 2)]⟩ 3
        [(0, .list [.atom "a", .build "f" [.atom "b"]])] (.build "append" [.var 1, .var 2, .var 0]) :=
      ⟨by cbv, ⟨[_], .cons (.equal 0 (by decide)) .nil, rfl⟩, by decide⟩
    exact (query_library_enumerations (started _)).2 1 2 _ [.atom "a", .build "f" [.atom "b"]] asks (by decide) (by decide)
      (by decide) rfl (by decide) (by simp [settled])

end HornLoops
