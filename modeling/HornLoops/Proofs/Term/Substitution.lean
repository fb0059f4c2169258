import HornLoops.Arithmetic
import Mathlib

/-!
# Laws of substitution

Terms nest through lists of arguments, so an induction over terms has a hypothesis for each argument. The
functions on sequences are maps of the functions on terms, and after that no proof looks at them again. The
weight of a term counts its symbols; it is what makes algorithms that take terms apart end.
-/

namespace HornLoops.Term

/-- Induction over terms, with a hypothesis for the first argument and for each of the others. -/
@[elab_as_elim, induction_eliminator]
theorem argInduction {motive : Term → Prop} (var : ∀ id, motive (.var id))
    (int : ∀ value, motive (.int value)) (atom : ∀ name, motive (.atom name))
    (compound : ∀ name first rest, motive first → (∀ term ∈ rest, motive term) →
      motive (.compound name first rest)) (term : Term) : motive term :=
  @Term.rec motive (fun terms => ∀ term ∈ terms, motive term) var int atom
    (fun name first rest first' rest' => compound name first rest first' rest')
    (by simp)
    (fun head tail head' tail' term member => by
      rcases List.mem_cons.mp member with rfl | member
      · exact head'
      · exact tail' term member)
    term

/-- Substitution in a sequence is substitution in each term. -/
@[simp] theorem substAll_eq_map (replace : Nat → Term) (terms : List Term) :
    substAll replace terms = terms.map (subst replace) := by
  induction terms with
  | nil => rfl
  | cons term terms ih => rw [substAll, ih, List.map_cons]

/-- The occurrences in a sequence are those in each term. -/
@[simp] theorem occurrencesAll_eq_flatMap (terms : List Term) :
    occurrencesAll terms = terms.flatMap occurrences := by
  induction terms with
  | nil => rfl
  | cons term terms ih => rw [occurrencesAll, ih, List.flatMap_cons]

@[simp] theorem subst_var (replace : Nat → Term) (id : Nat) : (var id).subst replace = replace id := rfl

@[simp] theorem subst_int (replace : Nat → Term) (value : Int64) :
    (int value).subst replace = int value := rfl

@[simp] theorem subst_atom (replace : Nat → Term) (name : String) :
    (atom name).subst replace = atom name := rfl

@[simp] theorem subst_nil (replace : Nat → Term) : nil.subst replace = nil := rfl

@[simp] theorem subst_compound (replace : Nat → Term) (name : String) (first : Term) (rest : List Term) :
    (compound name first rest).subst replace =
      compound name (first.subst replace) (rest.map (subst replace)) := by
  rw [subst, substAll_eq_map]

@[simp] theorem occurrences_var (id : Nat) : (var id).occurrences = [id] := rfl

@[simp] theorem occurrences_int (value : Int64) : (int value).occurrences = [] := rfl

@[simp] theorem occurrences_atom (name : String) : (atom name).occurrences = [] := rfl

@[simp] theorem occurrences_compound (name : String) (first : Term) (rest : List Term) :
    (compound name first rest).occurrences = first.occurrences ++ rest.flatMap occurrences := by
  rw [occurrences, occurrencesAll_eq_flatMap]

@[simp] theorem args_build (name : String) (args : List Term) : (build name args).args = args := by
  cases args <;> rfl

@[simp] theorem isVar_build (name : String) (args : List Term) : (build name args).isVar = false := by
  cases args <;> rfl

@[simp] theorem occurrences_build (name : String) (args : List Term) :
    (build name args).occurrences = args.flatMap occurrences := by
  cases args <;> simp [build]

@[simp] theorem subst_build (replace : Nat → Term) (name : String) (args : List Term) :
    (build name args).subst replace = build name (args.map (subst replace)) := by
  cases args <;> simp [build]

@[simp] theorem subst_binary (replace : Nat → Term) (name : String) (left right : Term) :
    (binary name left right).subst replace = binary name (left.subst replace) (right.subst replace) := rfl

@[simp] theorem occurrences_unary (name : String) (inner : Term) : (unary name inner).occurrences = inner.occurrences := by
  simp [unary]

@[simp] theorem occurrences_binary (name : String) (left right : Term) :
    (binary name left right).occurrences = left.occurrences ++ right.occurrences := by
  simp [binary]

variable {term first : Term} {replace : Nat → Term} {id limit : Nat} {name : String} {rest : List Term}

/-- Only the values of the variables that occur matter. -/
theorem subst_congr {left right : Nat → Term} (same : ∀ id ∈ term.occurrences, left id = right id) :
    term.subst left = term.subst right := by
  induction term with
  | var id => exact same id (by simp)
  | int value => rfl
  | atom name => rfl
  | compound name first rest ihFirst ihRest =>
    simp only [occurrences_compound, List.mem_append, List.mem_flatMap] at same
    have rests : rest.map (subst left) = rest.map (subst right) :=
      List.map_congr_left fun term member =>
        ihRest term member fun id occurs => same id (.inr ⟨term, member, occurs⟩)
    rw [subst_compound, subst_compound, ihFirst fun id occurs => same id (.inl occurs), rests]

/-- Replacing every variable by itself changes nothing. -/
@[simp] theorem subst_self (term : Term) : term.subst var = term := by
  induction term with
  | var id => rfl
  | int value => rfl
  | atom name => rfl
  | compound name first rest ihFirst ihRest =>
    have rests : rest.map (subst var) = rest := by
      conv_rhs => rw [← List.map_id rest]
      exact List.map_congr_left ihRest
    rw [subst_compound, ihFirst, rests]

/-- Two substitutions after each other are one. -/
theorem subst_subst (outer inner : Nat → Term) (term : Term) :
    (term.subst inner).subst outer = term.subst fun id => (inner id).subst outer := by
  induction term with
  | var id => rfl
  | int value => rfl
  | atom name => rfl
  | compound name first rest ihFirst ihRest =>
    have rests : (rest.map (subst inner)).map (subst outer) =
        rest.map (subst fun id => (inner id).subst outer) := by
      rw [List.map_map]
      exact List.map_congr_left ihRest
    rw [subst_compound, subst_compound, subst_compound, ihFirst, rests]

/-- A substitution that keeps the variables of a term keeps the term. -/
theorem subst_eq_self (kept : ∀ id ∈ term.occurrences, replace id = var id) : term.subst replace = term := by
  rw [subst_congr kept, subst_self]

/-- The variables after a substitution are those of the values. -/
theorem mem_occurrences_subst :
    id ∈ (term.subst replace).occurrences ↔
      ∃ other ∈ term.occurrences, id ∈ (replace other).occurrences := by
  induction term with
  | var other => simp
  | int value => simp
  | atom name => simp
  | compound name first rest ihFirst ihRest =>
    simp only [subst_compound, occurrences_compound, List.mem_append, List.flatMap_map,
      List.mem_flatMap, ihFirst]
    constructor
    · rintro (⟨other, occurs, inside⟩ | ⟨term, member, inside⟩)
      · exact ⟨other, .inl occurs, inside⟩
      · obtain ⟨other, occurs, inside⟩ := (ihRest term member).mp inside
        exact ⟨other, .inr ⟨term, member, occurs⟩, inside⟩
    · rintro ⟨other, occurs | ⟨term, member, occurs⟩, inside⟩
      · exact .inl ⟨other, occurs, inside⟩
      · exact .inr ⟨term, member, (ihRest term member).mpr ⟨other, occurs, inside⟩⟩

/-- Whether all variables of a term have numbers below a limit. -/
def Below (limit : Nat) (term : Term) : Prop := ∀ id ∈ term.occurrences, id < limit

instance (limit : Nat) (term : Term) : Decidable (term.Below limit) :=
  inferInstanceAs (Decidable (∀ id ∈ term.occurrences, id < limit))

/-- A limit may be raised. -/
theorem Below.mono {small large : Nat} (below : term.Below small) (le : small ≤ large) :
    term.Below large := fun id occurs => Nat.lt_of_lt_of_le (below id occurs) le

theorem mem_occurrences_of_mem_args {argument : Term} (member : argument ∈ term.args) (occurs : id ∈ argument.occurrences) :
    id ∈ term.occurrences := by
  cases term with
  | compound name first rest =>
    rw [occurrences_compound, ← List.flatMap_cons]
    exact List.mem_flatMap.mpr ⟨argument, member, occurs⟩
  | _ => cases member

theorem Below.args (below : term.Below limit) : ∀ argument ∈ term.args, argument.Below limit :=
  fun _ member id occurs => below id (mem_occurrences_of_mem_args member occurs)

theorem below_var : (var id).Below limit ↔ id < limit := by
  simp [Below]

theorem below_build {args : List Term} : (build name args).Below limit ↔ ∀ term ∈ args, term.Below limit := by
  simp only [Below, occurrences_build, List.mem_flatMap]
  constructor
  · intro below term member id occurs
    exact below id ⟨term, member, occurs⟩
  · rintro below id ⟨term, member, occurs⟩
    exact below term member id occurs

theorem below_compound :
    (compound name first rest).Below limit ↔ first.Below limit ∧ ∀ term ∈ rest, term.Below limit := by
  rw [← List.forall_mem_cons, ← below_build]
  rfl

theorem below_unary : (unary name term).Below limit ↔ term.Below limit := by
  simp [Below]

theorem below_binary {left right : Term} :
    (binary name left right).Below limit ↔ left.Below limit ∧ right.Below limit := by
  simp [Below, or_imp, forall_and]

mutual

/-- The number of symbols of a term. -/
def weight : Term → Nat
  | .var _ | .int _ | .atom _ => 1
  | .compound _ first rest => weight first + weightAll rest + 1

/-- The number of symbols of a sequence. -/
def weightAll : List Term → Nat
  | [] => 0
  | term :: terms => weight term + weightAll terms

end

/-- The weight of a sequence is the sum of the weights. -/
theorem weightAll_eq_sum (terms : List Term) : weightAll terms = (terms.map weight).sum := by
  induction terms with
  | nil => rfl
  | cons term terms ih => rw [weightAll, ih, List.map_cons, List.sum_cons]

@[simp] theorem weight_compound (name : String) (first : Term) (rest : List Term) :
    (compound name first rest).weight = first.weight + (rest.map weight).sum + 1 := by
  rw [weight, weightAll_eq_sum]

/-- Every term has a symbol. -/
theorem weight_pos (term : Term) : 0 < term.weight := by
  cases term <;> simp [weight]

/-- A compound weighs more than what weighs no more than one of its arguments. -/
theorem lt_weight_subst (replace : Nat → Term) {bound : Nat}
    (lighter : ∀ arg ∈ first :: rest, id ∈ arg.occurrences → bound ≤ (arg.subst replace).weight)
    (occurs : id ∈ (compound name first rest).occurrences) :
    bound < ((compound name first rest).subst replace).weight := by
  obtain ⟨arg, member, occurs⟩ : ∃ arg ∈ first :: rest, id ∈ arg.occurrences := by simpa using occurs
  have part := List.le_sum_of_mem (List.mem_map_of_mem (f := fun arg => (arg.subst replace).weight) member)
  have bounded := lighter arg member occurs
  rw [subst_compound, weight_compound, List.map_map]
  simp only [List.map_cons, List.sum_cons, Function.comp_def] at part ⊢
  omega

/-- The value of a variable weighs no more than a term in which the variable occurs. -/
theorem weight_le_weight_subst (replace : Nat → Term) (occurs : id ∈ term.occurrences) :
    (replace id).weight ≤ (term.subst replace).weight := by
  induction term with
  | var other =>
    obtain rfl : id = other := by simpa using occurs
    exact Nat.le_refl _
  | int value => simp at occurs
  | atom name => simp at occurs
  | compound name first rest ihFirst ihRest =>
    exact (lt_weight_subst replace (List.forall_mem_cons.mpr ⟨ihFirst, ihRest⟩) occurs).le

/-- The value of a variable weighs less than a compound in which the variable occurs. -/
theorem weight_lt_weight_subst (replace : Nat → Term) (occurs : id ∈ (compound name first rest).occurrences) :
    (replace id).weight < ((compound name first rest).subst replace).weight :=
  lt_weight_subst replace (fun _ _ => weight_le_weight_subst replace) occurs

end HornLoops.Term

namespace HornLoops

/-! ## Values of expressions -/

/-- Replacing variables by terms is giving them the values of these terms. -/
theorem Arithmetic.evalWith_subst (value : Nat → Value) (replace : Nat → Term) (term : Term) :
    evalWith value (term.subst replace) =
      evalWith (fun id => evalWith value (replace id)) term := by
  induction term with
  | var id => rw [Term.subst_var, evalWith]
  | int number => rfl
  | atom name => rfl
  | compound name first rest ihFirst ihRest =>
    rw [Term.subst_compound]
    match rest with
    | [] => simp only [List.map_nil, evalWith, ihFirst]
    | [second] =>
      simp only [List.map_cons, List.map_nil, evalWith, ihFirst, ihRest second (by simp)]
    | _ :: _ :: _ => simp [evalWith]

end HornLoops
