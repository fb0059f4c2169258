import HornLoops.Proofs.Arithmetic
import HornLoops.Proofs.Machine.Description
import HornLoops.Proofs.Machine.Outcomes

/-!
# Following a run

Goals that unify, evaluate and compare, clauses and iterations of loops are followed from a description of the store to
the next one. Where a goal has one solution, the description after it is that before it together with what the goal
says. A clause or an iteration is entered with what is known of the arguments of the call.
-/

namespace HornLoops

open Machine Bindings

variable {σ : Type} {invariant : Machine → Prop} {bindings : Bindings} {limit depth : Nat}

/-! ## Goals -/

/-- Adding a constant to an integer gives the exact sum if it fits. -/
theorem Goal.evalWith_plus {unknown : Nat → Arithmetic.Value} {word constant result : Int64}
    (exact : result.toInt = word.toInt + constant.toInt) :
    Arithmetic.evalWith unknown (Goal.plus (.int word) constant) = .ok result := by
  unfold Goal.plus
  split
  · rename_i magnitude opposite
    rw [word?_eq_some_iff] at opposite
    split
    · change Arithmetic.narrow (word.toInt - magnitude.toInt) = .ok result
      exact Arithmetic.narrow_eq_ok_iff.mpr (by omega)
    · exact Arithmetic.narrow_eq_ok_iff.mpr exact
  · exact Arithmetic.narrow_eq_ok_iff.mpr exact

namespace Bindings.Scope

variable {names : List Nat} {number : Nat → Nat} {fact : (Nat → Term) → (Nat → Term) → Prop}
  (scope : bindings.Scope limit names number fact) {outer value : Nat → Term} (holds : fact outer value)

include scope holds

/-- Two terms that can be equal are unified. -/
theorem unify (steady : Steady invariant) {left right : Term} (knownLeft : ∀ id ∈ left.occurrences, id ∈ names)
    (knownRight : ∀ id ∈ right.occurrences, id ∈ names) (possible : left.subst value = right.subst value) (depth : Nat) :
    ∃ after, Attains invariant (solving σ ((Term.binary "=" left right).rename number) depth) bindings after ∧
      after.Scope limit names number fun outer value => fact outer value ∧ left.subst value = right.subst value := by
  obtain ⟨after, enough, grown, unified, scope'⟩ := scope.equates knownLeft knownRight holds possible
  have copied : (Term.binary "=" left right).rename number =
      .compound "=" (left.rename number) [right.rename number] := by
    simp [Term.binary]
  rw [copied]
  exact ⟨after, .equated rfl (fun _ => rfl) unified grown steady depth, scope'⟩

/-- An expression is evaluated, which gives a variable its value. -/
theorem evaluate (steady : Steady invariant) {id : Nat} {expression : Term} {word : Int64} (known : id ∈ names)
    (possible : value id = .int word)
    (valued : ∀ outer value, fact outer value →
      Arithmetic.evalWith (fun _ => .error .unbound) (expression.subst value) = .ok word) (depth : Nat) :
    ∃ after, Attains invariant (solving σ ((Goal.evaluate (.var id) expression).rename number) depth) bindings after ∧
      after.Scope limit names number fun outer value => fact outer value ∧ value id = .int word := by
  have knownTarget : ∀ other ∈ (Term.var id).occurrences, other ∈ names := by simpa using known
  have knownWord : ∀ other ∈ (Term.int word).occurrences, other ∈ names := by simp
  obtain ⟨after, enough, grown, unified, scope'⟩ := scope.equates knownTarget knownWord holds (by simpa using possible)
  have copied : (Goal.evaluate (.var id) expression).rename number =
      .compound "is" (.var (number id)) [expression.rename number] := by
    simp [Goal.evaluate, Term.binary]
  have evaluated := scope.eval_eq holds valued
  rw [copied]
  refine ⟨after, .equated rfl (fun fuel => ?_) unified grown steady depth, by simpa using scope'⟩
  simp only [Builtin.evaluated, evaluated]
  rfl

/-- An expression without a value is an error. -/
theorem evaluateFault {target expression : Term} {error : ArithmeticError}
    (valued : ∀ outer value, fact outer value →
      Arithmetic.evalWith (fun _ => .error .unbound) (expression.subst value) = .error error) (depth : Nat) :
    Presents invariant (solving σ ((Goal.evaluate target expression).rename number) depth) bindings []
      (some (.arithmetic error)) := by
  have copied : (Goal.evaluate target expression).rename number =
      .compound "is" (target.rename number) [expression.rename number] := by
    simp [Goal.evaluate, Term.binary]
  have evaluated := scope.eval_eq holds valued
  rw [copied]
  refine Presents.faulted rfl (fun fuel => ?_) depth
  simp only [Builtin.evaluated, evaluated]
  rfl

/-- A comparison of two expressions. -/
theorem compare {left right : Term} {word word' : Int64}
    (valued : ∀ outer value, fact outer value →
      Arithmetic.evalWith (fun _ => .error .unbound) (left.subst value) = .ok word ∧
      Arithmetic.evalWith (fun _ => .error .unbound) (right.subst value) = .ok word')
    (test : Int → Int → Bool) (fuel : Nat) :
    Builtin.compare test (left.rename number) (right.rename number) fuel bindings =
      .ok (Builtin.test (test word.toInt word'.toInt)) := by
  have left' := scope.eval_eq holds fun outer value holds => (valued outer value holds).1
  have right' := scope.eval_eq holds fun outer value holds => (valued outer value holds).2
  simp only [Builtin.compare, Builtin.evaluated, left', right']
  rfl

end Bindings.Scope

/-! ## Sequences of goals -/

/-- Goals that have one solution each, found in one store after the other. -/
inductive Runs (invariant : Machine → Prop) (σ : Type) (depth : Nat) : List Term → Bindings → Bindings → Prop
  | done (bindings : Bindings) : Runs invariant σ depth [] bindings bindings
  | skip {goals : List Term} {bindings after : Bindings} (runs : Runs invariant σ depth goals bindings after) :
      Runs invariant σ depth (.truth :: goals) bindings after
  | step {goal : Term} {goals : List Term} {bindings between after : Bindings} (other : goal ≠ .truth)
      (attains : Attains invariant (solving σ goal depth) bindings between)
      (runs : Runs invariant σ depth goals between after) : Runs invariant σ depth (goal :: goals) bindings after

namespace Runs

variable {goals : List Term} {after : Bindings} (runs : Runs invariant σ depth goals bindings after)
include runs

theorem append {goals' : List Term} {later : Bindings}
    (runs' : Runs invariant σ depth goals' after later) : Runs invariant σ depth (goals ++ goals') bindings later := by
  induction runs with
  | done bindings => exact runs'
  | skip _ ih => exact .skip (ih runs')
  | step other attains _ ih => exact .step other attains (ih runs')

/-- The goals are solved one after the other. -/
theorem attains : Attains invariant (solving σ (.conjunction goals) depth) bindings after := by
  rw [Term.conjunction]
  induction runs with
  | done bindings => exact .truth bindings depth
  | skip _ ih => simpa using ih
  | @step goal goals _ _ _ other attains _ ih =>
    rw [List.filter_cons_of_pos (by simpa using other)]
    cases rest : goals.filter fun goal => goal ≠ .truth with
    | nil =>
      rw [rest] at ih
      apply (attains.trans ih).congr
      intro fuel barrier k acc machine _ _
      rw [Term.joinGoals, Term.joinGoals, solving, solving, solve_truth]
    | cons next others =>
      rw [rest] at ih
      exact fun final steady => attains.both steady (ih final steady)

variable {found final : Machine → Prop} (steady : Steady final) {fault : Option RunError}
include steady

/-- The goals are solved, and then others. -/
theorem joined {rest : List Term} (some : rest ≠ []) {solutions : List (Bindings → Prop)}
    (presents : PresentsFrom invariant found final (solving σ (.joinGoals rest) depth) after solutions fault) :
    PresentsFrom invariant found final (solving σ (.joinGoals (goals.filter (fun goal => goal ≠ .truth) ++ rest)) depth)
      bindings solutions fault := by
  induction runs with
  | done bindings => exact presents
  | skip _ ih => simpa using ih presents
  | @step goal goals _ _ _ other attains _ ih =>
    rw [List.filter_cons_of_pos (by simpa using other), List.cons_append]
    have later := ih presents
    cases shape : goals.filter (fun goal => goal ≠ .truth) ++ rest with
    | nil => exact absurd (List.append_eq_nil_iff.mp shape).2 some
    | cons next others =>
      rw [shape] at later
      exact attains.both steady later

variable {last : Term} (other : last ≠ .truth)
include other

/-- The goals are solved, and then another one. -/
theorem presents {solutions : List (Bindings → Prop)}
    (presents : PresentsFrom invariant found final (solving σ last depth) after solutions fault) :
    PresentsFrom invariant found final (solving σ (.conjunction (goals ++ [last])) depth) bindings solutions fault := by
  rw [Term.conjunction_append goals other]
  exact runs.joined steady (List.cons_ne_nil last []) presents

/-- The goals are solved up to one without solutions. -/
theorem fails (presents : PresentsFrom invariant found final (solving σ last depth) after [] fault) (more : List Term) :
    PresentsFrom invariant found final (solving σ (.conjunction (goals ++ last :: more)) depth) bindings [] fault := by
  rw [Term.conjunction, List.filter_append, List.filter_cons_of_pos (by simpa using other)]
  refine runs.joined steady (List.cons_ne_nil _ _) ?_
  cases more.filter fun goal => goal ≠ .truth with
  | nil => exact presents
  | cons next others => exact presents.bothNever (.joinGoals (next :: others))

end Runs

/-! ## Clauses -/

/-- A copy of a clause has the variables of the clause under new numbers. -/
theorem Clause.instantiate_ofTerms (head body : Term) (next : Nat) :
    (Clause.ofTerms head body).instantiate next =
      (head.args.map (Term.rename (copyNumber (Term.varsAll [head, body]) next)),
        body.rename (copyNumber (Term.varsAll [head, body]) next)) := by
  simp only [ofTerms, instantiate, Term.args_rename, List.map_map, Function.comp_def, Term.rename_rename]
  rfl

namespace Bindings.Relates

variable {args : List Term} {relation : (Nat → Term) → List Term → Prop}
  (relates : bindings.Relates limit args relation) {head body : Term}

theorem mem_varsAll_head {term : Term} (member : term ∈ head.args) {id : Nat} (occurs : id ∈ term.occurrences) :
    id ∈ Term.varsAll [head, body] := by
  exact Term.mem_varsAll.mpr ⟨head, by simp, Term.mem_occurrences_of_mem_args member occurs⟩

include relates

/-- A clause whose head the arguments can match is entered. -/
theorem enterClause (steady : Steady invariant) (head body : Term) (σ : Type) (depth : Nat) {outer value : Nat → Term}
    (possible : relation outer (head.args.map (Term.subst value))) :
    ∃ begun, begun.Scope limit (Term.varsAll [head, body]) (copyNumber (Term.varsAll [head, body]) bindings.size)
        (fun outer value => relation outer (head.args.map (Term.subst value))) ∧
      (∀ found final solutions fault, Steady final → PresentsFrom invariant found final
          (solving σ (body.rename (copyNumber (Term.varsAll [head, body]) bindings.size)) (depth + 1)) begun solutions fault →
        PresentsFrom invariant found final (trying σ args depth [.ofTerms head body]) bindings solutions fault) ∧
      ∀ clauses solutions solutions' fault, Presents invariant
          (solving σ (body.rename (copyNumber (Term.varsAll [head, body]) bindings.size)) (depth + 1)) begun solutions none →
        Presents invariant (trying σ args depth clauses) bindings solutions' fault →
        Presents invariant (trying σ args depth (.ofTerms head body :: clauses)) bindings (solutions ++ solutions')
          fault := by
  have known : ∀ term ∈ head.args, ∀ id ∈ term.occurrences, id ∈ Term.varsAll [head, body] :=
    fun term member id occurs => mem_varsAll_head member occurs
  obtain ⟨begun, enough, grown, matched, scope⟩ := relates.matching known possible
  have copied := Clause.instantiate_ofTerms head body bindings.size
  refine ⟨begun, scope, fun found final solutions fault steady' presents => ?_,
    fun clauses solutions solutions' fault presents rest => ?_⟩
  · exact Presents.lastClause steady steady' copied matched grown presents
  · exact Presents.tryClause steady copied matched grown presents rest

/-- A clause whose head the arguments clash with is passed over. -/
theorem skipClause (clash : Clash relation head.args) {clauses : List Clause} {solutions : List (Bindings → Prop)}
    {fault : Option RunError} (presents : Presents invariant (trying σ args depth clauses) bindings solutions fault) :
    Presents invariant (trying σ args depth (.ofTerms head body :: clauses)) bindings solutions fault := by
  have known : ∀ term ∈ head.args, ∀ id ∈ term.occurrences, id ∈ Term.varsAll [head, body] :=
    fun term member id occurs => mem_varsAll_head member occurs
  obtain ⟨enough, clashes⟩ := relates.clashes known clash
  exact Presents.skipClause (Clause.instantiate_ofTerms head body bindings.size) clashes presents

end Bindings.Relates

end HornLoops
