import HornLoops.Proofs.Machine.Following

/-!
# Goals that assign values

At the start of an iteration a loop runs goals that compute one variable from others: the next index, an argument, a
position. Each of them has exactly one solution, after which the variable is known to have its value. A chain of such
goals reveals the values of all its variables.
-/

namespace HornLoops

open Machine

/-- Once some variables have their values, every copy of a goal unifies two terms, which are equal exactly if one
further variable has its value. -/
def Reveals (value : Nat → Term) (given : List Nat) (goal : Term) (id : Nat) : Prop :=
  id ∈ goal.occurrences ∧ ∀ (bindings : Bindings) (number : Nat → Nat), bindings.WellFormed →
    bindings.Acyclic → (goal.rename number).Below bindings.size →
    (∀ other ∈ given, bindings.Fixes (.var (number other)) (value other)) →
    ∃ action left right, Goal.ofTerm (goal.rename number) = .ok (.builtin action) ∧
      (∀ fuel, action fuel bindings = .ok (.equate 0 [left] [right])) ∧
      left.Below bindings.size ∧ right.Below bindings.size ∧
      ∀ solution, bindings.Satisfies solution →
        (left.subst solution = right.subst solution ↔ solution (number id) = value id)

/-- Goals that reveal variables one after the other, starting from some that are known. -/
inductive Chain (value : Nat → Term) (revealed : List Nat) : List Nat → List Term → Prop
  | done {given : List Nat} (all : revealed ⊆ given) : Chain value revealed given []
  | step {given : List Nat} {goal : Term} {goals : List Term} {id : Nat}
      (reveals : Reveals value given goal id) (later : Chain value revealed (id :: given) goals) :
      Chain value revealed given (goal :: goals)

variable {value : Nat → Term} {id other : Nat}

theorem Reveals.mono {given more : List Nat} {goal : Term} (reveals : Reveals value given goal id)
    (subset : given ⊆ more) : Reveals value more goal id :=
  ⟨reveals.1, fun bindings number formed acyclic below fixed =>
    reveals.2 bindings number formed acyclic below fun other member => fixed other (subset member)⟩

namespace Chain

variable {value : Nat → Term} {revealed given : List Nat} {goals : List Term}

theorem mono {more : List Nat} (chain : Chain value revealed given goals) (subset : given ⊆ more) :
    Chain value revealed more goals := by
  induction chain generalizing more with
  | done all => exact .done (List.Subset.trans all subset)
  | step reveals later ih =>
    exact .step (reveals.mono subset) (ih (List.cons_subset_cons _ subset))

/-- What is known besides stays known. -/
theorem append_left (chain : Chain value revealed given goals) {extra known : List Nat}
    (subset : extra ⊆ known) : Chain value (extra ++ revealed) (known ++ given) goals := by
  induction chain with
  | done all => exact .done (List.append_subset.mpr ⟨List.subset_append_of_subset_left _ subset,
      List.subset_append_of_subset_right _ all⟩)
  | step reveals later ih =>
    refine .step (reveals.mono (List.subset_append_right _ _)) (ih.mono ?_)
    intro id member
    simp only [List.mem_append, List.mem_cons] at member ⊢
    tauto

/-- One chain after another. -/
theorem append {revealed' given' : List Nat} {goals' : List Term} (first : Chain value revealed given goals)
    (second : Chain value revealed' given' goals') :
    Chain value (revealed ++ revealed') (given ++ given') (goals ++ goals') := by
  induction first with
  | done all => exact second.append_left all
  | step reveals later ih =>
    exact .step (reveals.mono (List.subset_append_left _ _)) ih

end Chain

/-! ## Running -/

section

variable {value : Nat → Term} {given revealed : List Nat} {invariant : Machine → Prop} (steady : Steady invariant)
  {bindings : Bindings} {limit : Nat} {names : List Nat} {number : Nat → Nat}
  {fact : (Nat → Term) → (Nat → Term) → Prop} (scope : bindings.Scope limit names number fact)
  (fixed : ∀ outer found, fact outer found → ∀ id ∈ given, found id = value id) {outer found : Nat → Term}
  (holds : fact outer found) (σ : Type) (depth : Nat)
include steady scope fixed holds

/-- A goal that reveals a variable has one solution. -/
theorem Reveals.exists_attains {goal : Term} {id : Nat} (reveals : Reveals value given goal id)
    (known : ∀ other ∈ goal.occurrences, other ∈ names) (valued : found id = value id) :
    ∃ after, Attains invariant (solving σ (goal.rename number) depth) bindings after ∧
      after.Scope limit names number fun outer found => fact outer found ∧ found id = value id := by
  obtain ⟨action, left, right, asked, effect, belowLeft, belowRight, equal⟩ := reveals.2 bindings number scope.formed
    (scope.acyclic holds) (scope.below_rename known) fun other member => scope.fixes fun outer found holds =>
      fixed outer found holds other member
  obtain ⟨after, enough, grown, unified, scope'⟩ := Bindings.exists_scope
    (fun outer found => fact outer found ∧ found id = value id) scope.formed scope.around
    (List.forall_mem_singleton.mpr belowLeft) (List.forall_mem_singleton.mpr belowRight) scope.below
    (fun solution satisfies same =>
      ⟨scope.sound solution satisfies, (equal solution satisfies).mp (List.singleton_inj.mp same)⟩)
    (fun outer found ⟨holds, valued⟩ => by
      obtain ⟨solution, satisfies, around, same⟩ := scope.complete outer found holds
      have revealed := (equal solution satisfies).mpr ((same id (known id reveals.1)).trans valued)
      exact ⟨solution, satisfies, congrArg (fun term => [term]) revealed, around, same⟩) ⟨holds, valued⟩
  exact ⟨after, .equated asked effect unified grown steady depth, scope'⟩

/-- A chain of goals has one solution, after which the revealed variables are known to have their values. -/
theorem Chain.exists_runs {goals : List Term} (chain : Chain value revealed given goals)
    (known : ∀ goal ∈ goals, ∀ id ∈ goal.occurrences, id ∈ names)
    (about : ∀ goal ∈ goals, ∀ id ∈ goal.occurrences, id ∈ revealed) (valued : ∀ id ∈ revealed, found id = value id) :
    ∃ after, Runs invariant σ depth (goals.map (Term.rename number)) bindings after ∧
      after.Scope limit names number fun outer found => fact outer found ∧ ∀ id ∈ revealed, found id = value id := by
  induction chain generalizing bindings fact with
  | done all =>
    refine ⟨bindings, .done bindings, scope.congr fun outer found => ⟨fun holds => ⟨holds, fun id member => ?_⟩, And.left⟩⟩
    exact fixed outer found holds id (all member)
  | @step given goal goals id reveals later ih =>
    rw [List.forall_mem_cons] at known about
    have here := about.1 id reveals.1
    obtain ⟨between, attains, scope'⟩ := reveals.exists_attains steady scope fixed holds σ depth known.1 (valued id here)
    have fixed' (outer found : Nat → Term) (holds : fact outer found ∧ found id = value id) :
        ∀ other ∈ id :: given, found other = value other :=
      List.forall_mem_cons.mpr ⟨holds.2, fixed outer found holds.1⟩
    obtain ⟨after, runs, scope''⟩ := ih scope' fixed' ⟨holds, valued id here⟩ known.2 about.2
    refine ⟨after, .step (fun same => ?_) attains runs, scope''.congr fun outer found => ?_⟩
    · have occurs := List.mem_map_of_mem (f := number) reveals.1
      rw [← Term.occurrences_rename, same] at occurs
      cases occurs
    · exact ⟨fun all => ⟨all.1.1, all.2⟩, fun all => ⟨⟨all.1, all.2 id here⟩, all.2⟩⟩

end

/-! ## Goals of loops -/

/-- Adding a constant to a variable reveals the sum. -/
theorem reveals_evaluate {word constant result : Int64} (known : value other = .int word)
    (wanted : value id = .int result) (exact : result.toInt = word.toInt + constant.toInt) :
    Reveals value [other] (Goal.evaluate (.var id) (Goal.plus (.var other) constant)) id := by
  refine ⟨by simp [Goal.evaluate, Term.binary], ?_⟩
  intro bindings number formed acyclic below fixed
  have evaluated : bindings.eval (Goal.plus (.var (number other)) constant) = .ok result := by
    have resolved := (fixed other (by simp)).resolve acyclic
    rw [Bindings.eval_eq, Bindings.resolve_eq_subst, Goal.subst_plus, Term.subst_var, resolved, known]
    exact Goal.evalWith_plus exact
  have copy : (Goal.evaluate (.var id) (Goal.plus (.var other) constant)).rename number =
      .compound "is" (.var (number id)) [Goal.plus (.var (number other)) constant] := by
    simp [Goal.evaluate, Term.binary]
  rw [copy] at below ⊢
  refine ⟨_, .var (number id), .int result, rfl, fun fuel => ?_, (Term.below_compound.mp below).1,
    by simp [Term.Below], fun solution satisfies => ?_⟩
  · simp only [Builtin.evaluated, evaluated]
    rfl
  · rw [wanted]
    rfl

/-- Taking an argument reveals it. -/
theorem reveals_argument {index current : Nat} {position : Int64} {structured item : Term}
    (known : value index = .int position) (known' : value current = structured) (wanted : value id = item)
    (positive : 0 < position.toInt) (found : structured.args[position.toInt.toNat - 1]? = some item) :
    Reveals value [index, current] (.build "arg" [.var index, .var current, .var id]) id := by
  refine ⟨by simp, ?_⟩
  intro bindings number formed acyclic below fixed
  have fixedIndex := fixed index (by simp)
  have fixedCurrent := fixed current (by simp)
  rw [known] at fixedIndex
  rw [known'] at fixedCurrent
  have walkIndex := fixedIndex.walk_eq formed acyclic rfl rfl
  cases structured with
  | var other => simp [Term.args] at found
  | int number => simp [Term.args] at found
  | atom name => simp [Term.args] at found
  | compound name first rest =>
    obtain ⟨first', rest', walkCurrent, valued⟩ := fixedCurrent.exists_compound formed acyclic
    have found' : ∀ solution, bindings.Satisfies solution →
        ((first' :: rest')[position.toInt.toNat - 1]?).map (Term.subst solution) = some item := by
      intro solution satisfies
      rw [← List.getElem?_map, valued solution satisfies]
      exact found
    obtain ⟨item', taken⟩ : ∃ item', (first' :: rest')[position.toInt.toNat - 1]? = some item' := by
      have some := found' _ acyclic.satisfies_resolve
      rw [Option.map_eq_some_iff] at some
      obtain ⟨item', taken, _⟩ := some
      exact ⟨item', taken⟩
    have belowCurrent : (bindings.walk (.var (number current))).Below bindings.size := by
      refine formed.walk_below (Term.below_var.mpr (below (number current) ?_))
      simp
    rw [walkCurrent, Term.below_compound, ← List.forall_mem_cons] at belowCurrent
    refine ⟨_, .var (number id), item', rfl, fun fuel => ?_, Term.below_var.mpr (below (number id) (by simp)),
      belowCurrent item' (List.mem_of_getElem? taken), fun solution satisfies => ?_⟩
    · change Builtin.argument (.var (number index)) (.var (number current)) (.var (number id)) fuel bindings = _
      simp only [Builtin.argument, walkIndex, walkCurrent, taken, if_neg (Int.not_le.mpr positive)]
      rfl
    · have valued' := found' solution satisfies
      rw [taken, Option.map_some, Option.some.injEq] at valued'
      rw [valued', wanted]
      rfl

/-- Unifying a variable with a known one reveals it. -/
theorem reveals_equal (same : value id = value other) :
    Reveals value [other] (.binary "=" (.var id) (.var other)) id := by
  refine ⟨by simp, ?_⟩
  intro bindings number formed acyclic below fixed
  rw [Term.rename_binary, Term.below_binary] at below
  refine ⟨_, .var (number id), .var (number other), rfl, fun fuel => rfl, below.1, below.2,
    fun solution satisfies => ?_⟩
  rw [same, ← fixed other (by simp) solution satisfies]
  rfl

end HornLoops
