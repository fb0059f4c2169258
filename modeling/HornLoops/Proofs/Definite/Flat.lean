import HornLoops.Proofs.Definite.Search
import HornLoops.Proofs.Loop.Renaming

/-!
# Programs without compound terms

If the arguments of all calls and equations are variables and constants, then unification binds variables to older
variables and to constants only. A search over such clauses therefore never makes a circle.
-/

namespace HornLoops

/-! ## Stores -/

namespace Bindings

/-- A store in which variables are bound to variables and constants only. -/
def Flat (bindings : Bindings) : Prop := ∀ id value, bindings.lookup? id = some value → value.args = []

namespace Flat

variable {bindings : Bindings} (flat : bindings.Flat)
include flat

/-- Along references in a flat store variables get older. -/
theorem acyclic (formed : bindings.WellFormed) : bindings.Acyclic := by
  have older : ∀ id other, bindings.Refers id other → id > other := by
    rintro id other ⟨value, bound, occurs⟩
    have simple := flat id value bound
    cases value with
    | var target =>
      obtain rfl : other = target := by simpa using occurs
      exact formed.older id other bound
    | int value => simp at occurs
    | atom name => simp at occurs
    | compound name first rest => simp [Term.args] at simple
  exact fun id circle => Nat.lt_irrefl id (Relation.transGen_minimal older _ _ circle)

theorem reserve (size : Nat) : (bindings.reserve size).Flat := by
  intro id value bound
  rw [lookup?_reserve] at bound
  exact flat id value bound

theorem bind (id : Nat) {value : Term} (simple : value.args = []) : (bindings.bind id value).Flat := by
  intro other found bound
  rcases lookup?_of_bind bound with ⟨_, rfl⟩ | before
  · exact simple
  · exact flat other found before

theorem args_walk {term : Term} (simple : term.args = []) : (bindings.walk term).args = [] := by
  have follows : ∀ steps (term : Term), term.args = [] → (bindings.follow steps term).args = [] := by
    intro steps
    induction steps with
    | zero => exact fun term simple => by cases term <;> exact simple
    | succ steps ih =>
      intro term simple
      cases term with
      | var id =>
        cases cell : bindings.lookup? id with
        | none => simp [follow, cell, Term.args]
        | some value =>
          simp only [follow, cell]
          exact ih value (flat id value cell)
      | int value => rfl
      | atom name => rfl
      | compound name first rest => contradiction
  exact follows bindings.size term simple

omit flat in
/-- Unifying terms without arguments keeps a store flat. -/
theorem maintained : Maintained Flat fun term => term.args = [] where
  walk flat := flat.args_walk
  args simple _ member := by simp [simple] at member
  bind flat _ _ simple _ := flat.bind _ simple

theorem unifyAll {after : Bindings} {fuel : Nat} {lefts rights : List Term} (simple : ∀ left ∈ lefts, left.args = [])
    (simple' : ∀ right ∈ rights, right.args = [])
    (unified : bindings.unifyAll fuel lefts rights = (some true, after)) : after.Flat := by
  obtain ⟨_, fuel', _, last⟩ := ends_of_unifyAll unified
  rw [← last rfl]
  refine maintained.unifyPairs fuel' flat fun pair member => ?_
  exact ⟨simple _ (List.of_mem_zip member).1, simple' _ (List.of_mem_zip member).2⟩

end Flat

end Bindings

/-! ## Searches -/

namespace Term

/-- Goals whose calls and equations have variables and constants as arguments. -/
def FlatGoal : Term → Prop
  | .compound name left [right] =>
    if isJunction name then FlatGoal left ∧ FlatGoal right else left.args = [] ∧ right.args = []
  | goal => ∀ arg ∈ goal.args, arg.args = []

theorem flatGoal_junction {name : String} (junction : isJunction name = true) {left right : Term} :
    FlatGoal (.binary name left right) ↔ FlatGoal left ∧ FlatGoal right := by
  simp [binary, FlatGoal, junction]

theorem flatGoal_equal {left right : Term} :
    FlatGoal (.binary "=" left right) ↔ left.args = [] ∧ right.args = [] := by
  have other : isJunction "=" = false := rfl
  simp [binary, FlatGoal, other]

theorem flatGoal_call {name : String} {args : List Term} (ordinary : Goal.ofCall name args = .predicate name args) :
    FlatGoal (.build name args) ↔ ∀ arg ∈ args, arg.args = [] := by
  match args with
  | [] => exact Iff.rfl
  | [_] => exact Iff.rfl
  | [left, right] =>
    simp [build, FlatGoal, Goal.isJunction_eq_false ordinary]
  | _ :: _ :: _ :: _ => exact Iff.rfl

theorem args_map_rename_eq_nil {number : Nat → Nat} (terms : List Term) (simple : ∀ term ∈ terms, term.args = []) :
    ∀ term ∈ terms.map (rename number), term.args = [] :=
  List.forall_mem_map.mpr fun term member => by rw [args_rename, simple term member, List.map_nil]

theorem FlatGoal.rename {goal : Term} (number : Nat → Nat) : FlatGoal goal → FlatGoal (goal.rename number) := by
  induction goal with
  | var id => exact fun flat => flat
  | int value => exact fun flat => flat
  | atom name => exact fun flat => flat
  | compound name first rest ihFirst ihRest =>
    rw [rename_compound]
    match rest with
    | [] => exact fun flat => args_map_rename_eq_nil [first] flat
    | [second] =>
      have ihSecond := ihRest second (by simp)
      simp only [List.map_cons, List.map_nil, FlatGoal, args_rename, List.map_eq_nil_iff]
      split_ifs
      · exact And.imp ihFirst ihSecond
      · exact fun flat => flat
    | second :: third :: rest =>
      exact fun flat => args_map_rename_eq_nil (first :: second :: third :: rest) flat

end Term

/-- A clause whose head, calls and equations have variables and constants as arguments. -/
structure Clause.Flat (clause : Clause) : Prop where
  head : ∀ arg ∈ clause.head.args, arg.args = []
  body : clause.body.FlatGoal

namespace Resolvent

/-- A resolvent without compound terms as arguments. -/
structure Flat (resolvent : Resolvent) : Prop where
  goals : ∀ goal ∈ resolvent.goals, goal.FlatGoal
  bindings : resolvent.bindings.Flat

variable {program : Program} (clauses : ∀ clause ∈ program.clauses, clause.Flat)
include clauses

theorem Step.flat {before after : Resolvent} (step : Step program before after) (flat : before.Flat) : after.Flat := by
  obtain ⟨goals, bindings⟩ := flat
  cases step with
  | truth => exact ⟨(List.forall_mem_cons.mp goals).2, bindings⟩
  | both =>
    obtain ⟨first, others⟩ := List.forall_mem_cons.mp goals
    have sides := (Term.flatGoal_junction (show isJunction "," = true from rfl)).mp first
    exact ⟨List.forall_mem_cons.mpr ⟨sides.1, List.forall_mem_cons.mpr ⟨sides.2, others⟩⟩, bindings⟩
  | either choice =>
    obtain ⟨first, others⟩ := List.forall_mem_cons.mp goals
    have sides := (Term.flatGoal_junction (show isJunction ";" = true from rfl)).mp first
    refine ⟨List.forall_mem_cons.mpr ⟨?_, others⟩, bindings⟩
    rcases List.mem_pair.mp choice with rfl | rfl
    · exact sides.1
    · exact sides.2
  | equal unified =>
    obtain ⟨first, others⟩ := List.forall_mem_cons.mp goals
    have sides := Term.flatGoal_equal.mp first
    exact ⟨others, bindings.unifyAll (by simpa using sides.1) (by simpa using sides.2) unified⟩
  | @call fuel name args goals' store after clause ordinary among unified =>
    obtain ⟨first, others⟩ := List.forall_mem_cons.mp goals
    have own := clauses clause (List.mem_filter.mp among).1
    have params : ∀ param ∈ (clause.instantiate store.size).1, param.args = [] :=
      Term.args_map_rename_eq_nil _ own.head
    refine ⟨List.forall_mem_cons.mpr ⟨own.body.rename _, others⟩, ?_⟩
    exact Bindings.Flat.unifyAll (bindings.reserve _) params ((Term.flatGoal_call ordinary).mp first) unified

/-- A search over clauses without compound terms keeps to resolvents without compound terms. -/
theorem Reaches.flat {start resolvent : Resolvent} (reaches : Reaches program start resolvent) (flat : start.Flat) :
    resolvent.Flat := by
  induction reaches with
  | refl => exact flat
  | tail _ step ih => exact step.flat clauses ih

omit clauses in
/-- A search over clauses without compound terms makes no circles. -/
theorem Flat.circleFree {machine : Machine} {predicates : Set (String × Nat)} (part : machine.DefinitePart predicates)
    (clauses : ∀ clause ∈ machine.program.clauses, clause.Flat) {start : Resolvent} {limit : Nat}
    (proper : start.Proper predicates limit) (flat : start.Flat) : CircleFree machine.program start :=
  fun _ reaches => (reaches.flat clauses flat).bindings.acyclic (reaches.proper part proper).formed

end Resolvent

end HornLoops
