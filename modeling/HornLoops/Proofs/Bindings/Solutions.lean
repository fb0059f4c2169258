import HornLoops.Proofs.Bindings.Tuples

/-!
# Stores and their solutions

What a store says is the set of its solutions. A solution can be extended to copies of variables; a value that all
solutions agree on can be read off by walking, resolving and evaluating; sequences of terms that have a common
solution are unified, with exactly the common solutions left; and sequences that differ in a constant clash.
-/

namespace HornLoops.Bindings

variable {bindings : Bindings} {solution : Nat → Term}

/-! ## Solutions -/

@[simp] theorem satisfies_reserve {size : Nat} :
    (bindings.reserve size).Satisfies solution ↔ bindings.Satisfies solution := by
  simp [Satisfies]

@[simp] theorem reserve_size : bindings.reserve bindings.size = bindings := by
  simp [reserve, size]

/-- Only the values of the variables of the store matter. -/
theorem WellFormed.satisfies_congr (formed : WellFormed bindings) (satisfies : bindings.Satisfies solution)
    {other : Nat → Term} (same : ∀ id < bindings.size, other id = solution id) :
    bindings.Satisfies other := by
  intro id value bound
  rw [same id (lt_size_of_lookup? bound), satisfies id value bound]
  exact Term.subst_congr fun inner occurs =>
    (same inner (formed.below id value bound inner occurs)).symm

/-- Replacing bound variables does not change the value. -/
theorem Satisfies.subst_resolve (satisfies : bindings.Satisfies solution) (term : Term) :
    (bindings.resolve term).subst solution = term.subst solution := by
  have within : ∀ levels (term : Term),
      (bindings.resolveWithin levels term).subst solution = term.subst solution := by
    intro levels
    induction levels with
    | zero => exact fun _ => rfl
    | succ levels ih =>
      intro term
      rw [resolveWithin, Term.subst_subst]
      refine Term.subst_congr fun id _ => ?_
      cases bound : bindings.lookup? id with
      | none => rfl
      | some value => simp only [ih, satisfies id value bound]
  exact within bindings.size term

/-- A solution can be extended to copies of variables, which may have any values. -/
theorem WellFormed.exists_extension (formed : WellFormed bindings) (satisfies : bindings.Satisfies solution)
    (names : List Nat) (value : Nat → Term) :
    ∃ extended, bindings.Satisfies extended ∧ (∀ id < bindings.size, extended id = solution id) ∧
      ∀ id ∈ names, extended (bindings.size + names.idxOf id) = value id := by
  let extended (id : Nat) : Term :=
    if id < bindings.size then solution id else value (names.getD (id - bindings.size) 0)
  have same : ∀ id < bindings.size, extended id = solution id := fun id inside => if_pos inside
  refine ⟨extended, formed.satisfies_congr satisfies same, same, fun id member => ?_⟩
  have position : names.idxOf id < names.length := List.idxOf_lt_length_of_mem member
  have outside : ¬ bindings.size + names.idxOf id < bindings.size := by omega
  simp only [extended, if_neg outside, Nat.add_sub_cancel_left]
  rw [List.getD_eq_getElem _ _ position, List.getElem_idxOf]

/-! ## Values that all solutions agree on -/

/-- All solutions of a store give a term the same value. -/
def Fixes (bindings : Bindings) (term value : Term) : Prop :=
  ∀ solution, bindings.Satisfies solution → term.subst solution = value

variable {term value left right : Term} {after bindings : Bindings} {lefts rights early early' : List Term}
  {fuel : Nat}

theorem Fixes.resolve (fixes : bindings.Fixes term value) (acyclic : bindings.Acyclic) :
    bindings.resolve term = value := by
  rw [resolve_eq_subst]
  exact fixes _ acyclic.satisfies_resolve

/-- The end of a chain has the value of the term. -/
theorem Fixes.walk (fixes : bindings.Fixes term value) : bindings.Fixes (bindings.walk term) value := by
  intro solution satisfies
  rw [satisfies.subst_walk]
  exact fixes solution satisfies

variable (formed : WellFormed bindings) (acyclic : bindings.Acyclic)
include formed acyclic

/-- A chain that no solution gives a variable as its value does not end in one. -/
theorem isVar_walk
    (solid : ∀ solution, bindings.Satisfies solution → (term.subst solution).isVar = false) :
    (bindings.walk term).isVar = false := by
  have satisfies := acyclic.satisfies_resolve
  have valued := solid _ satisfies
  rw [← satisfies.subst_walk] at valued
  cases ending : bindings.walk term with
  | var id =>
    rw [ending, Term.subst_var, resolve_unbound (formed.descending.unbound_of_walk ending)] at valued
    exact valued
  | int value => rfl
  | atom name => rfl
  | compound name first rest => rfl

theorem Fixes.isVar_walk (fixes : bindings.Fixes term value) (solid : value.isVar = false) :
    (bindings.walk term).isVar = false := by
  apply Bindings.isVar_walk formed acyclic
  intro solution satisfies
  rwa [fixes solution satisfies]

/-- A chain whose value is a constant ends in that constant. -/
theorem Fixes.walk_eq (fixes : bindings.Fixes term value) (solid : value.isVar = false) (simple : value.args = []) :
    bindings.walk term = value := by
  have resolved := fixes.walk.resolve acyclic
  have solid' := fixes.isVar_walk formed acyclic solid
  cases ending : bindings.walk term with
  | var id => simp [ending, Term.isVar] at solid'
  | int value => simpa [ending] using resolved
  | atom name => simpa [ending] using resolved
  | compound name first rest =>
    rw [ending, resolve_compound] at resolved
    simp [← resolved, Term.args] at simple

/-- A chain whose value is a compound ends in a compound whose arguments have the values of its arguments. -/
theorem Fixes.exists_compound {first : Term} {name : String} {rest : List Term}
    (fixes : bindings.Fixes term (.compound name first rest)) :
    ∃ first' rest', bindings.walk term = .compound name first' rest' ∧
      ∀ solution, bindings.Satisfies solution →
        (first' :: rest').map (Term.subst solution) = first :: rest := by
  have resolved := fixes.walk.resolve acyclic
  have solid := fixes.isVar_walk formed acyclic rfl
  cases ending : bindings.walk term with
  | var id => simp [ending, Term.isVar] at solid
  | int value => simp [ending] at resolved
  | atom name => simp [ending] at resolved
  | compound name' first' rest' =>
    rw [ending, resolve_compound, Term.compound.injEq] at resolved
    refine ⟨first', rest', by rw [resolved.1], fun solution satisfies => ?_⟩
    have valued := fixes.walk solution satisfies
    rw [ending, Term.subst_compound, Term.compound.injEq] at valued
    rw [List.map_cons, valued.2.1, valued.2.2]

omit formed acyclic

/-! ## Values of expressions -/

theorem evalWithin_eq (bindings : Bindings) (levels : Nat) (term : Term) :
    bindings.evalWithin levels term =
      Arithmetic.evalWith (fun _ => .error .unbound) (bindings.resolveWithin levels term) := by
  induction levels generalizing term with
  | zero => rfl
  | succ levels ih =>
    rw [evalWithin, resolveWithin, Arithmetic.evalWith_subst]
    congr 1
    funext id
    cases bindings.lookup? id with
    | none => rfl
    | some value => exact ih value

/-- The value of an expression is the value of what is left when its variables are replaced. -/
theorem eval_eq (bindings : Bindings) (term : Term) :
    bindings.eval term = Arithmetic.evalWith (fun _ => .error .unbound) (bindings.resolve term) :=
  evalWithin_eq bindings bindings.size term

/-! ## Sequences of terms -/

/-- Sequences of terms over the variables of a store. -/
abbrev AllBelow (bindings : Bindings) (terms : List Term) : Prop := ∀ term ∈ terms, term.Below bindings.size

theorem AllBelow.mono {terms : List Term} (below : bindings.AllBelow terms) (le : bindings.size ≤ after.size) :
    after.AllBelow terms :=
  fun term member => (below term member).mono le

variable (belowLefts : bindings.AllBelow lefts) (belowRights : bindings.AllBelow rights)
include belowLefts belowRights

theorem AllBelow.zip : PairsBelow bindings.size (lefts.zip rights) :=
  fun _ member => ⟨belowLefts _ (List.of_mem_zip member).1, belowRights _ (List.of_mem_zip member).2⟩

/-- What a store becomes when sequences of terms are unified in it: it has the solutions that they have in common. -/
structure Equated (before : Bindings) (lefts rights : List Term) (after : Bindings) : Prop where
  /-- The store is well formed. -/
  formed : WellFormed after
  /-- Nothing but empty cells was filled. -/
  grown : Grown before after
  /-- No cells were added. -/
  size : after.size = before.size
  /-- The solutions are the common ones. -/
  solutions : ∀ solution, after.Satisfies solution ↔
    before.Satisfies solution ∧ lefts.map (Term.subst solution) = rights.map (Term.subst solution)

include formed

theorem Equated.of_ends (length : lefts.length = rights.length) (ended : Ends (lefts.zip rights) bindings true after) :
    Equated bindings lefts rights after := by
  obtain ⟨fuel, success, last⟩ := ended
  obtain rfl := last rfl
  have solved := solved_unifyPairs formed fuel (belowLefts.zip belowRights)
  refine ⟨solved.formed, solved.grown, solved.size, fun solution => ?_⟩
  rw [solved.solutions success, unifies_zip length]

/-- Sequences that have a common solution are unified as pairs. -/
theorem exists_ends_true (satisfies : bindings.Satisfies solution)
    (same : lefts.map (Term.subst solution) = rights.map (Term.subst solution)) :
    lefts.length = rights.length ∧ ∃ after, Ends (lefts.zip rights) bindings true after := by
  have length : lefts.length = rights.length := by simpa using congrArg List.length same
  have success := unifyPairs_of_solution formed (belowLefts.zip belowRights) satisfies
    ((unifies_zip length).mpr same) (Nat.le_refl _)
  exact ⟨length, _, _, success, fun _ => rfl⟩

/-- Sequences that have a common solution are unified with enough fuel. -/
theorem exists_equated (satisfies : bindings.Satisfies solution)
    (same : lefts.map (Term.subst solution) = rights.map (Term.subst solution)) :
    ∃ after enough, Equated bindings lefts rights after ∧
      ∀ fuel ≥ enough, bindings.unifyAll fuel lefts rights = (some true, after) := by
  obtain ⟨length, after, ended⟩ := exists_ends_true formed belowLefts belowRights satisfies same
  obtain ⟨enough, unified⟩ := (exists_unifyAll_eq_iff formed.older length).mpr ⟨ended, nofun⟩
  refine ⟨after, enough, .of_ends formed belowLefts belowRights length ended, fun fuel more => ?_⟩
  rw [unifyAll_mono more (by simp [unified]), unified]

/-- Sequences that were unified leave the solutions that they have in common. -/
theorem equated_of_unifyAll (unified : bindings.unifyAll fuel lefts rights = (some true, after)) :
    Equated bindings lefts rights after :=
  have ⟨length, ended⟩ := ends_of_unifyAll unified
  .of_ends formed belowLefts belowRights length ended

/-- Sequences that could not be unified leave no trace and have no solution in common. -/
theorem unsolvable_of_unifyAll (failed : bindings.unifyAll fuel lefts rights = (some false, after)) :
    after = bindings ∧ ∀ solution, bindings.Satisfies solution →
      lefts.map (Term.subst solution) ≠ rights.map (Term.subst solution) := by
  by_cases length : lefts.length = rights.length
  · obtain ⟨⟨fuel, failed, -⟩, back⟩ := (exists_unifyAll_eq_iff formed.older length).mp ⟨fuel, failed⟩
    have solved := solved_unifyPairs formed fuel (belowLefts.zip belowRights)
    refine ⟨back rfl, fun solution satisfies same => ?_⟩
    exact solved.unsolvable failed solution satisfies ((unifies_zip length).mpr same)
  · rw [unifyAll, if_neg length, Prod.mk.injEq] at failed
    refine ⟨failed.2.symm, fun solution _ same => length ?_⟩
    simpa using congrArg List.length same

omit formed belowLefts belowRights

/-- Terms that one look is enough to tell apart: neither is a variable, they differ, and one of them has no arguments. -/
def Apart (left right : Term) : Prop :=
  left.isVar = false ∧ right.isVar = false ∧ left ≠ right ∧ (left.args = [] ∨ right.args = [])

/-- Terms whose values can be told apart in every solution clash at one look. -/
theorem ends_of_apart (formed : WellFormed bindings) (acyclic : bindings.Acyclic)
    (apart : ∀ solution, bindings.Satisfies solution → Apart (left.subst solution) (right.subst solution))
    (rest : List (Term × Term)) : Ends ((left, right) :: rest) bindings false after := by
  have solidLeft := isVar_walk formed acyclic fun solution satisfies => (apart solution satisfies).1
  have solidRight := isVar_walk formed acyclic fun solution satisfies => (apart solution satisfies).2.1
  have satisfies := acyclic.satisfies_resolve
  obtain ⟨_, _, differ, simple⟩ := apart _ satisfies
  rw [← satisfies.subst_walk left, ← satisfies.subst_walk right] at differ simple
  obtain ⟨move, moves, result⟩ := exists_move left right bindings
  refine ⟨1, ?_, nofun⟩
  rw [result]
  cases moves with
  | agree leaf _ walkLeft walkRight => simp [walkLeft, walkRight] at differ
  | bindLeft id _ walkLeft => simp [walkLeft, Term.isVar] at solidLeft
  | bindRight id _ _ walkRight => simp [walkRight, Term.isVar] at solidRight
  | split name first _ rest _ _ walkLeft walkRight => simp [walkLeft, walkRight, Term.args] at simple
  | clash => rfl

/-- Sequences clash, and leave no trace, if terms in front have a common solution and in all of these the next terms can
be told apart. -/
theorem exists_unifyAll_apart (formed : WellFormed bindings) {late late' : List Term}
    (belowLefts : bindings.AllBelow (early ++ left :: late))
    (belowRights : bindings.AllBelow (early' ++ right :: late')) (satisfies : bindings.Satisfies solution)
    (same : early.map (Term.subst solution) = early'.map (Term.subst solution))
    (apart : ∀ solution, bindings.Satisfies solution →
      early.map (Term.subst solution) = early'.map (Term.subst solution) →
        Apart (left.subst solution) (right.subst solution)) :
    ∃ enough, ∀ fuel ≥ enough,
      bindings.unifyAll fuel (early ++ left :: late) (early' ++ right :: late') = (some false, bindings) := by
  have belowEarly : bindings.AllBelow early := fun term member => belowLefts term (by simp [member])
  have belowEarly' : bindings.AllBelow early' := fun term member => belowRights term (by simp [member])
  obtain ⟨length, between, begun⟩ := exists_ends_true formed belowEarly belowEarly' satisfies same
  have equated := Equated.of_ends formed belowEarly belowEarly' length begun
  have acyclic := equated.formed.acyclic_of_satisfies ((equated.solutions solution).mpr ⟨satisfies, same⟩)
  have clash : Ends ((left, right) :: late.zip late') between false bindings :=
    ends_of_apart equated.formed acyclic (fun solution satisfies =>
      apart solution ((equated.solutions solution).mp satisfies).1 ((equated.solutions solution).mp satisfies).2) _
  by_cases lengths : (early ++ left :: late).length = (early' ++ right :: late').length
  · have ended := ends_append_of_ends begun clash
    rw [← List.zip_cons_cons, ← List.zip_append length] at ended
    obtain ⟨enough, failed⟩ := (exists_unifyAll_eq_iff formed.older lengths).mpr ⟨ended, fun _ => rfl⟩
    exact ⟨enough, fun fuel more => by rw [unifyAll_mono more (by simp [failed]), failed]⟩
  · exact ⟨0, fun fuel _ => by rw [unifyAll, if_neg lengths]⟩

/-! ## Stores in which nothing is bound -/

/-- Nothing is bound. -/
def Blank (bindings : Bindings) : Prop := ∀ id, bindings.lookup? id = none

theorem Blank.reserve (blank : bindings.Blank) (size : Nat) : (bindings.reserve size).Blank :=
  fun id => by rw [lookup?_reserve, blank id]

theorem blank_empty : Bindings.empty.Blank := fun _ => by simp [lookup?, Bindings.empty]

/-- Every substitution is a solution. -/
theorem Blank.satisfies (blank : bindings.Blank) (solution : Nat → Term) : bindings.Satisfies solution := by
  intro id value bound
  rw [blank id] at bound
  contradiction

end HornLoops.Bindings
