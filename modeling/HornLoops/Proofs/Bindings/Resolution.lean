import HornLoops.Proofs.Bindings.WellFormed

/-!
# Stores as systems of equations

A bound variable is an equation between the variable and its term, and a substitution of finite terms solves
a store if it solves all its equations. In a store without circles the bindings below every term come to an
end, because a chain of bound variables without repetition is no longer than the store. Replacing all bound
variables by their values is then a solution, and it is the one that keeps the unbound variables.
-/

namespace HornLoops

namespace Term

/-- The test of all variables looks at every occurrence. -/
theorem everyVar_iff {holds : Nat → Bool} {term : Term} :
    term.everyVar holds = true ↔ ∀ id ∈ term.occurrences, holds id = true := by
  have each : ∀ terms : List Term,
      everyVarAll holds terms = true ↔ ∀ term ∈ terms, term.everyVar holds = true := by
    intro terms
    induction terms with
    | nil => simp [everyVarAll]
    | cons head tail ih => simp [everyVarAll, ih]
  induction term with
  | var id => simp [everyVar]
  | int value => simp [everyVar]
  | atom name => simp [everyVar]
  | compound name first rest ihFirst ihRest =>
    simp only [everyVar, Bool.and_eq_true, each, ihFirst, occurrences_compound, List.mem_append,
      List.mem_flatMap]
    constructor
    · rintro ⟨first', rest'⟩ id (occurs | ⟨term, member, occurs⟩)
      · exact first' id occurs
      · exact (ihRest term member).mp (rest' term member) id occurs
    · intro all
      exact ⟨fun id occurs => all id (.inl occurs), fun term member =>
        (ihRest term member).mpr fun id occurs => all id (.inr ⟨term, member, occurs⟩)⟩

end Term

namespace Bindings

/-- A substitution satisfies a store if it gives each bound variable the value of its term. -/
def Satisfies (bindings : Bindings) (solution : Nat → Term) : Prop :=
  ∀ id value, bindings.lookup? id = some value → solution id = value.subst solution

/-- A variable refers to the variables of the term it is bound to. -/
def Refers (bindings : Bindings) (id other : Nat) : Prop :=
  ∃ value, bindings.lookup? id = some value ∧ other ∈ value.occurrences

/-- No variable refers to itself, directly or through others. -/
def Acyclic (bindings : Bindings) : Prop := ∀ id, ¬ Relation.TransGen bindings.Refers id id

variable {term : Term} {bindings : Bindings} {solution : Nat → Term} {levels : Nat}

/-- Following a chain of variables does not change the value. -/
theorem Satisfies.subst_follow (satisfies : bindings.Satisfies solution) (steps : Nat) (term : Term) :
    (bindings.follow steps term).subst solution = term.subst solution := by
  induction steps generalizing term with
  | zero => cases term <;> rfl
  | succ steps ih =>
    cases term with
    | var id =>
      cases cell : bindings.lookup? id with
      | none => simp [follow, cell]
      | some value =>
        simp only [follow, cell, Term.subst_var]
        rw [ih, satisfies id value cell]
    | int value => rfl
    | atom name => rfl
    | compound name first rest => rfl

/-- The end of a chain of variables has the value of its start. -/
theorem Satisfies.subst_walk (satisfies : bindings.Satisfies solution) (term : Term) :
    (bindings.walk term).subst solution = term.subst solution :=
  satisfies.subst_follow bindings.size term

/-! ## Levels of bindings -/

theorem endsWithin_zero :
    bindings.endsWithin 0 term = true ↔ ∀ id ∈ term.occurrences, bindings.lookup? id = none := by
  simp [endsWithin, Term.everyVar_iff]

theorem endsWithin_succ :
    bindings.endsWithin (levels + 1) term = true ↔
      ∀ id ∈ term.occurrences, ∀ value, bindings.lookup? id = some value →
        bindings.endsWithin levels value = true := by
  simp only [endsWithin, Term.everyVar_iff]
  apply forall_congr'
  intro id
  apply imp_congr_right
  intro _
  cases bindings.lookup? id <;> simp

/-- More levels have no influence once the bindings have come to an end. -/
theorem resolveWithin_mono {small large : Nat} (le : small ≤ large) (ends : bindings.endsWithin small term = true) :
    bindings.resolveWithin large term = bindings.resolveWithin small term := by
  induction small generalizing large term with
  | zero =>
    rw [endsWithin_zero] at ends
    cases large with
    | zero => rfl
    | succ large =>
      rw [resolveWithin, resolveWithin]
      apply Term.subst_eq_self
      intro id occurs
      simp [ends id occurs]
  | succ small ih =>
    rw [endsWithin_succ] at ends
    obtain ⟨large, rfl⟩ : ∃ rest, large = rest + 1 := ⟨large - 1, by omega⟩
    rw [resolveWithin, resolveWithin]
    apply Term.subst_congr
    intro id occurs
    cases cell : bindings.lookup? id with
    | none => rfl
    | some value => exact ih (by omega) (ends id occurs value cell)

/-- A term has an end if all its variables have. -/
theorem ends_iff : bindings.ends term = true ↔ ∀ id ∈ term.occurrences, bindings.ends (.var id) = true := by
  rw [ends]
  cases size : bindings.size with
  | zero => simp [ends, size, endsWithin_zero]
  | succ levels => simp [ends, size, endsWithin_succ]

theorem resolve_unbound {id : Nat} (unbound : bindings.lookup? id = none) : bindings.resolve (.var id) = .var id := by
  rw [resolve]
  cases bindings.size <;> simp [resolveWithin, unbound]

/-- A bound variable is replaced by its value, in which variables are replaced too. -/
theorem resolve_bound {id : Nat} {value : Term} (bound : bindings.lookup? id = some value)
    (ended : bindings.ends (.var id) = true) : bindings.resolve (.var id) = bindings.resolve value := by
  have inside := lt_size_of_lookup? bound
  obtain ⟨levels, size⟩ : ∃ levels, bindings.size = levels + 1 := ⟨bindings.size - 1, by omega⟩
  rw [ends, size, endsWithin_succ] at ended
  rw [resolve, resolve, resolveWithin_mono (by omega) (ended id (by simp) value bound), size]
  simp [resolveWithin, bound]

/-- Replacing bound variables is a substitution. -/
theorem resolve_eq_subst (bindings : Bindings) (term : Term) :
    bindings.resolve term = term.subst fun id => bindings.resolve (.var id) := by
  rw [resolve]
  cases size : bindings.size with
  | zero =>
    rw [resolveWithin]
    exact (Term.subst_eq_self fun id _ => by simp [resolve, size, resolveWithin]).symm
  | succ levels =>
    rw [resolveWithin]
    apply Term.subst_congr
    intro id _
    simp [resolve, size, resolveWithin]

@[simp] theorem resolve_int (bindings : Bindings) (value : Int64) :
    bindings.resolve (.int value) = .int value := by rw [resolve_eq_subst, Term.subst_int]

@[simp] theorem resolve_atom (bindings : Bindings) (name : String) :
    bindings.resolve (.atom name) = .atom name := by rw [resolve_eq_subst, Term.subst_atom]

@[simp] theorem resolve_compound (bindings : Bindings) (name : String) (first : Term)
    (rest : List Term) :
    bindings.resolve (.compound name first rest) =
      .compound name (bindings.resolve first) (rest.map bindings.resolve) := by
  rw [resolve_eq_subst, Term.subst_compound, ← resolve_eq_subst]
  congr 1
  exact List.map_congr_left fun term _ => (resolve_eq_subst bindings term).symm

/-! ## Stores without circles -/

/-- A chain of references through bound variables. -/
def Path (bindings : Bindings) (path : List Nat) : Prop :=
  path.IsChain bindings.Refers ∧ ∀ id ∈ path, (bindings.lookup? id).isSome

/-- Bindings that do not come to an end within some levels leave a long chain of references. -/
theorem exists_path_of_endsWithin (endless : bindings.endsWithin levels term = false) :
    ∃ id path, id ∈ term.occurrences ∧ bindings.Path (id :: path) ∧ path.length = levels := by
  induction levels generalizing term with
  | zero =>
    have some : ¬ ∀ id ∈ term.occurrences, bindings.lookup? id = none := by
      rw [← endsWithin_zero, endless]
      simp
    obtain ⟨id, occurs, bound⟩ : ∃ id ∈ term.occurrences, bindings.lookup? id ≠ none := by
      simpa using some
    exact ⟨id, [], occurs, ⟨.singleton id, by simp [Option.isSome_iff_ne_none, bound]⟩,
      rfl⟩
  | succ levels ih =>
    have some : ¬ ∀ id ∈ term.occurrences, ∀ value, bindings.lookup? id = some value →
        bindings.endsWithin levels value = true := by
      rw [← endsWithin_succ, endless]
      simp
    simp only [not_forall, Bool.not_eq_true] at some
    obtain ⟨id, occurs, value, bound, deeper⟩ := some
    obtain ⟨next, path, inside, ⟨chain, all⟩, length⟩ := ih deeper
    refine ⟨id, next :: path, occurs, ⟨?_, ?_⟩, by simp [length]⟩
    · exact List.isChain_cons_cons.mpr ⟨⟨value, bound, inside⟩, chain⟩
    · intro other member
      rcases List.mem_cons.mp member with rfl | member
      · simp [bound]
      · exact all other member

/-- Without circles no variable appears twice in a chain of references. -/
theorem Acyclic.nodup_of_path (acyclic : bindings.Acyclic) {path : List Nat} (chain : path.IsChain bindings.Refers) :
    path.Nodup := by
  have closure : path.IsChain (Relation.TransGen bindings.Refers) :=
    chain.imp fun _ _ => Relation.TransGen.single
  have pairwise := List.isChain_iff_pairwise.mp closure
  refine pairwise.imp ?_
  rintro left right refers rfl
  exact acyclic left refers

/-- Without circles the bindings below every term come to an end. -/
theorem Acyclic.ends (acyclic : bindings.Acyclic) (term : Term) : bindings.ends term = true := by
  by_contra ongoing
  have endless : bindings.ends term = false := by simpa using ongoing
  obtain ⟨id, path, _, ⟨chain, bound⟩, length⟩ := exists_path_of_endsWithin endless
  have distinct : (id :: path).Nodup := acyclic.nodup_of_path chain
  have inside : (id :: path) ⊆ List.range bindings.size := by
    intro other member
    obtain ⟨value, cell⟩ := Option.isSome_iff_exists.mp (bound other member)
    exact List.mem_range.mpr (lt_size_of_lookup? cell)
  have short := (distinct.subperm inside).length_le
  simp only [List.length_cons, length, List.length_range] at short
  omega

/-- Without circles, replacing all bound variables by their values is a solution. -/
theorem Acyclic.satisfies_resolve (acyclic : bindings.Acyclic) :
    bindings.Satisfies fun id => bindings.resolve (.var id) := by
  intro id value bound
  dsimp only
  rw [resolve_bound bound (acyclic.ends _), ← resolve_eq_subst]

/-- A well-formed store that has a solution has no circles: values get lighter along references, and where they do
not, variables get older. -/
theorem WellFormed.acyclic_of_satisfies (formed : WellFormed bindings) (satisfies : bindings.Satisfies solution) :
    bindings.Acyclic := by
  let smaller (id other : Nat) : Prop :=
    (solution other).weight < (solution id).weight ∨
      ((solution other).weight = (solution id).weight ∧ other < id)
  have step : ∀ id other, bindings.Refers id other → smaller id other := by
    rintro id other ⟨value, bound, occurs⟩
    have same := satisfies id value bound
    cases value with
    | var older =>
      obtain rfl : other = older := by simpa using occurs
      exact .inr ⟨by rw [same, Term.subst_var], formed.older id other bound⟩
    | int value => simp at occurs
    | atom name => simp at occurs
    | compound name first rest =>
      left
      rw [same]
      exact Term.weight_lt_weight_subst solution occurs
  intro id circle
  have all : ∀ {left right}, Relation.TransGen bindings.Refers left right → smaller left right := by
    intro left right refers
    induction refers with
    | single refers => exact step _ _ refers
    | tail _ refers ih =>
      have last := step _ _ refers
      simp only [smaller] at *
      omega
  have self := all circle
  simp only [smaller] at self
  omega

end Bindings

end HornLoops
