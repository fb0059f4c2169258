import HornLoops.Proofs.Machine.Definitions

/-!
# Loops that fold lists

A loop over a list that hands on a value is a fold: each iteration makes the next value of an item and of the value
before, or it is an error, and the last value is the result. What a single iteration does is left open here, so the same
laws hold for all bodies.
-/

namespace HornLoops

open Machine Bindings

/-! ## The threads -/

/-- The iterators `foreach(Item, List), fromto(First, Before, After, Result)`. -/
def LoopSpec.folding (list result item before : Nat) (first after : Term) : LoopSpec :=
  ⟨.forEach (.var item) (.var list), [.fromTo first (.var before) after (.var result)]⟩

/-- The threads of such a loop. -/
def foldingThreads (list result item before : Nat) (first after : Term) (next : Nat) : Threads where
  initial := [.var list, first, .var result]
  terminal := [.nil, .var (next + 1), .var (next + 1)]
  head := [.cons (.var item) (.var next), .var before, .var (next + 2)]
  call := [.var next, after, .var (next + 2)]

theorem LoopSpec.threads_folding (list result item before : Nat) (first after : Term) (next : Nat) :
    (folding list result item before first after).threads next =
      .ok (foldingThreads list result item before first after next) (next + 3) := rfl

/-! ## Iterations -/

/-- What the body of a loop makes of an item and of the value before, wherever these are told: the next value, or an
error. -/
def Iterates (invariant : Machine → Prop) (σ : Type) (item before : Nat) (after body element value : Term) :
    Except RunError Term → Prop
  | .ok value' => (∃ values : Nat → Term, values item = element ∧ values before = value ∧ after.subst values = value') ∧
      ∀ (bindings : Bindings) (limit depth : Nat) (names : List Nat) (number : Nat → Nat)
        (fact : (Nat → Term) → (Nat → Term) → Prop), bindings.Scope limit names number fact →
        (∀ id ∈ after.occurrences, id ∈ names) →
        (∀ outer values, fact outer values → values item = element ∧ values before = value) →
        (∃ outer values, fact outer values ∧ after.subst values = value') →
        ∃ between, Runs invariant σ depth [body.rename number] bindings between ∧
          between.Scope limit names number fun outer values => fact outer values ∧ after.subst values = value'
  | .error error => ∀ (bindings : Bindings) (limit depth : Nat) (names : List Nat) (number : Nat → Nat)
      (fact : (Nat → Term) → (Nat → Term) → Prop), bindings.Scope limit names number fact →
      (∀ outer values, fact outer values → values item = element ∧ values before = value) →
      (∃ outer values, fact outer values) →
      body.rename number ≠ .truth ∧ Presents invariant (solving σ (body.rename number) depth) bindings [] (some error)

/-- What the arguments of a round are: the rest of the list, the value so far, and the result. -/
def Folded (known : List (Nat × Term)) (id : Nat) (rest : List Term) (value : Term) (outer : Nat → Term)
    (values : List Term) : Prop := Known known outer ∧ values = [.list rest, value, outer id]

section

variable {known : List (Nat × Term)} {id list result item before next : Nat} {first after body : Term}

/-- The values of the variables in the head of an iteration. -/
theorem folded_head {element value : Term} {rest : List Term} {outer values : Nat → Term} :
    Folded known id (element :: rest) value outer
        ((foldingThreads list result item before first after next).head.map (Term.subst values)) ↔
      Known known outer ∧ values item = element ∧ values next = .list rest ∧ values before = value ∧
        values (next + 2) = outer id := by
  simp [Folded, foldingThreads, Term.list, Term.listBefore, Term.cons, Term.binary, and_assoc]

variable {invariant : Machine → Prop} (steady : Steady invariant) {way : LoopWay}
  (ready : way.Ready invariant (foldingThreads list result item before first after next) body)
  (inside : item < next ∧ before < next ∧ after.Below next) (different : item ≠ before) (determines : Determines known)
  {limit : Nat} {σ : Type} {element value : Term} {rest : List Term} {depth : Nat}
  (admits : ∀ machine, invariant machine → machine.Admits depth) {bindings : Bindings} {args : List Term}
  (arity : args.length = 3) (relates : bindings.Relates limit args (Folded known id (element :: rest) value))
include steady ready inside different determines admits arity relates

omit steady ready inside different admits arity relates in
/-- A list with items does not end the loop. -/
theorem clash_folded : Clash (Folded known id (element :: rest) value)
    (foldingThreads list result item before first after next).terminal := by
  obtain ⟨outer, holds, _⟩ := determines.exists_known Term.var
  apply Clash.first ⟨outer, _, holds, rfl⟩
  rintro outer value values ⟨_, rfl⟩
  exact ⟨_, _, rfl, apart_nil_cons value _ _⟩

omit different in
/-- An iteration that makes the next value. -/
theorem presents_folded_cons {value' : Term} (iterates : Iterates invariant σ item before after body element value (.ok value'))
    {solutions : List (Bindings → Prop)} {fault : Option RunError}
    (further : ∀ (between : Bindings) (args' : List Term), args'.length = 3 →
      between.Relates limit args' (Folded known id rest value') →
      way.Presents invariant σ (foldingThreads list result item before first after next) body args' (depth + 1) between
        solutions fault) :
    way.Presents invariant σ (foldingThreads list result item before first after next) body args depth bindings solutions
      fault := by
  obtain ⟨⟨base, isItem, isBefore, isAfter⟩, runs⟩ := iterates
  -- The values of the variables of the iteration.
  let valued (outer : Nat → Term) (each : Nat) : Term :=
    if each = next then .list rest else if each = next + 2 then outer id else base each
  have possible (outer : Nat → Term) (holds : Known known outer) : Folded known id (element :: rest) value outer
      ((foldingThreads list result item before first after next).head.map (Term.subst (valued outer))) := by
    rw [folded_head]
    simp only [valued]
    grind
  have made (outer : Nat → Term) : after.subst (valued outer) = value' := by
    rw [← isAfter]
    refine Term.subst_congr fun each occurs => ?_
    have small := inside.2.2 each occurs
    simp only [valued]
    rw [if_neg (by omega), if_neg (by omega)]
  obtain ⟨outer, holds, _⟩ := determines.exists_known Term.var
  obtain ⟨begun, scope, goes, _⟩ := LoopWay.goes (σ := σ) steady admits ready arity relates (clash_folded determines)
    (possible outer holds)
  have named : after ∈ (foldingThreads list result item before first after next).call := by simp [foldingThreads]
  obtain ⟨between, iterated, scope'⟩ := runs begun limit (depth + 1) _ _ _ scope
    (fun _ occurs => Threads.mem_stepNames (by simp [named]) occurs)
    (fun outer values holds => ⟨(folded_head.mp holds).2.1, (folded_head.mp holds).2.2.2.1⟩)
    ⟨outer, valued outer, possible outer holds, made outer⟩
  refine goes between solutions fault iterated (further between _ rfl ?_)
  refine scope'.relates (fun term member id occurs => ?_) ?_ ?_
  · exact Threads.mem_stepNames (by simp [member]) occurs
  · rintro outer values ⟨holds, same⟩
    rw [folded_head] at holds
    exact ⟨holds.1, by simp [foldingThreads, holds, same]⟩
  · rintro outer _ ⟨holds, rfl⟩
    refine ⟨valued outer, ⟨possible outer holds, made outer⟩, ?_⟩
    simp [foldingThreads, made, valued]

/-- An iteration that is an error. -/
theorem presents_folded_error {error : RunError}
    (iterates : Iterates invariant σ item before after body element value (.error error)) :
    way.Presents invariant σ (foldingThreads list result item before first after next) body args depth bindings []
      (some error) := by
  let valued (outer : Nat → Term) (each : Nat) : Term :=
    if each = next then .list rest else if each = next + 2 then outer id else if each = item then element else value
  obtain ⟨outer, holds, _⟩ := determines.exists_known Term.var
  have possible : Folded known id (element :: rest) value outer
      ((foldingThreads list result item before first after next).head.map (Term.subst (valued outer))) := by
    rw [folded_head]
    simp only [valued]
    grind
  obtain ⟨begun, scope, _, stops⟩ := LoopWay.goes (σ := σ) steady admits ready arity relates (clash_folded determines)
    possible
  obtain ⟨other, presents⟩ := iterates begun limit (depth + 1) _ _ _ scope
    (fun outer values holds => ⟨(folded_head.mp holds).2.1, (folded_head.mp holds).2.2.2.1⟩) ⟨outer, _, possible⟩
  exact stops begun (some error) (.done begun) other presents

end

/-! ## Runs -/

/-- The solutions of a fold: one with the last value, unless there is an error. -/
def foldSolutions {S : Type} (known : List (Nat × Term)) (id : Nat) (state : S → Term) :
    Except RunError S → List (List (Nat × Term))
  | .ok last => [(id, state last) :: known]
  | .error _ => []

/-- The error of a fold. -/
def foldFault {S : Type} : Except RunError S → Option RunError
  | .ok _ => none
  | .error error => some error

section

variable {S I : Type} {state : S → Term} {shown : I → Term} {step : S → I → Except RunError S}
  {known : List (Nat × Term)} {id list result item before next : Nat} {first after body : Term}
  {invariant : Machine → Prop} (steady : Steady invariant) {way : LoopWay}
  (ready : way.Ready invariant (foldingThreads list result item before first after next) body)
  (inside : item < next ∧ before < next ∧ after.Below next) (different : item ≠ before) (determines : Determines known)
  (other : id ∉ known.map Prod.fst) {limit : Nat} {σ : Type}
  (iterates : ∀ value element,
    Iterates invariant σ item before after body (shown element) (state value) ((step value element).map state))
include steady ready inside different determines other iterates

/-- The iterations fold the list. -/
theorem presents_folded {items : List I} {value : S} {depth : Nat}
    (ground : ∀ last, items.foldlM step value = .ok last → (state last).occurrences = [])
    (admits : ∀ deeper ≤ depth + items.length, ∀ machine, invariant machine → machine.Admits deeper)
    {bindings : Bindings} {args : List Term} (arity : args.length = 3)
    (relates : bindings.Relates limit args (Folded known id (items.map shown) (state value))) :
    way.Presents invariant σ (foldingThreads list result item before first after next) body args depth bindings
      ((foldSolutions known id state (items.foldlM step value)).map fun known' after => after.Tells limit (Known known'))
      (foldFault (items.foldlM step value)) := by
  induction items generalizing value depth bindings args with
  | nil =>
    exact LoopWay.presents_result steady ready (admits depth (by simp)) arity determines rfl other (ground value rfl)
      relates
  | cons element rest ih =>
    have iterated := iterates value element
    rw [List.foldlM_cons] at ground ⊢
    have here := admits depth (by simp)
    cases made : step value element with
    | error error =>
      rw [made] at iterated
      exact presents_folded_error steady ready inside different determines here arity relates iterated
    | ok value' =>
      rw [made] at iterated ground
      refine presents_folded_cons steady ready inside determines here arity relates iterated
        fun between args' arity' relates' => ?_
      refine ih ground (fun deeper shallow => admits deeper ?_) arity' relates'
      rw [List.length_cons]
      omega

end

/-! ## Queries -/

/-- A query for a predicate that folds a list is answered with the result of the fold. -/
theorem Asks.responds_folding {S I : Type} {state : S → Term} {shown : I → Term} {step : S → I → Except RunError S}
    {text : String} {read : ReadTerm} {count : Nat} {known : List (Nat × Term)} {name : String} {listed : Term} {id : Nat}
    (asks : Asks text read count known (.build name [listed, .var id]))
    (loopless : Loopless (.build name [listed, .var id]))
    (asked : Goal.ofCall name [listed, .var id] = .predicate name [listed, .var id]) {machine : Machine}
    (idle : machine.bindings = .empty) (sound : machine.procedures.Sound)
    (free : ∀ number arity, machine.program.clausesFor (Procedures.nameOf number) arity = [])
    {list result item before next : Nat} {first after body : Term}
    (defined : machine.Defines name [list, result] (.folding list result item before first after) body next
      (foldingThreads list result item before first after next))
    (different : item ≠ before) (other : id ∉ known.map Prod.fst) {items : List I}
    (valued : listed.subst (valueAmong known) = .list (items.map shown))
    (groundItems : ∀ element ∈ items, (shown element).occurrences = []) {begins : S} (start : first = state begins)
    (groundFirst : first.occurrences = [])
    (groundLast : ∀ last, items.foldlM step begins = .ok last → (state last).occurrences = [])
    (deep : ∀ limit, machine.settings.depthLimit = some limit → items.length + 1 < limit)
    (iterates : ∀ procedures value element,
      Iterates (Given machine.settings machine.program procedures) (List Answer) item before after body (shown element)
        (state value) ((step value element).map state)) :
    machine.Responds text
      ((items.foldlM step begins).map fun last => [valuedAnswer (shownNames read) ((id, state last) :: known)]) := by
  have shape : (items.foldlM step begins).map (fun last => [valuedAnswer (shownNames read) ((id, state last) :: known)]) =
      (foldFault (items.foldlM step begins)).elim
        (.ok ((foldSolutions known id state (items.foldlM step begins)).map (valuedAnswer (shownNames read)))) .error := by
    cases items.foldlM step begins <;> rfl
  have determined : ∀ known' ∈ foldSolutions known id state (items.foldlM step begins), Determines known' := by
    intro known' member
    cases folded : items.foldlM step begins with
    | error error => simp [folded, foldSolutions] at member
    | ok last =>
      rw [folded] at member
      rw [List.mem_singleton.mp member]
      exact asks.determines.cons other (groundLast last folded)
  have admits (depth : Nat) (shallow : depth ≤ 1 + items.length) (machine' : Machine) {procedures : Procedures}
      (given : Given machine.settings machine.program procedures machine') : machine'.Admits depth := by
    intro limit bounded
    have := deep limit (given.settings ▸ bounded)
    omega
  rw [shape]
  refine asks.responds_defined loopless asked idle sound free defined rfl (admits 0 (by omega) machine ⟨rfl, rfl, rfl⟩)
    determined fun way procedures number names begun ready scope named => ⟨begun, .done begun, ?_⟩
  have occurs (each : Nat) (member : each ∈ [item] ++ [list] ++ first.occurrences ++ [before] ++ after.occurrences ++ [result]) :
      each < next := by
    apply defined.inside
    simp [LoopSpec.folding, LoopSpec.occurrences, LoopSpec.iterators, LoopIterator.occurrences, LoopIterator.toTerm] at member ⊢
    tauto
  have whole (outer : Nat → Term) (holds : Known known outer) : listed.subst outer = .list (items.map shown) := by
    rw [asks.determines.subst_eq_list holds valued, List.map_map]
    congr 1
    refine List.map_congr_left fun element member => Term.subst_eq_self ?_
    simp [groundItems element member]
  have constant (values : Nat → Term) : first.subst values = state begins := by
    rw [← start]
    exact Term.subst_eq_self (by simp [groundFirst])
  have apart : list ≠ result := by simpa using defined.distinct
  refine presents_folded (steady_given _ _ _) ready ⟨occurs item (by simp), occurs before (by simp), fun each member => ?_⟩
    different asks.determines other (iterates procedures) groundLast
    (fun deeper shallow machine' given => admits deeper shallow machine' given) rfl ?_
  · exact occurs each (by simp [member])
  refine scope.relates (fun term member => named term (List.mem_append_right _ member)) ?_ ?_
  · rintro outer values ⟨holds, passed⟩
    simp only [List.map_cons, List.map_nil, Term.subst_var, List.cons.injEq, and_true] at passed
    refine ⟨holds, ?_⟩
    simp [foldingThreads, passed, whole outer holds, constant]
  · rintro outer _ ⟨holds, rfl⟩
    refine ⟨fun each => if each = list then .list (items.map shown) else outer id, ⟨holds, ?_⟩, ?_⟩
    · simp [whole outer holds, apart.symm]
    · simp [foldingThreads, constant, apart.symm]

end HornLoops
