import HornLoops.Machine.Goal
import HornLoops.Machine.State
import HornLoops.Proofs.Loop.Traversal

/-!
# Definite programs and their least models

Definite goals are built from `true`, `fail`, equations and calls of given predicates by `,` and `;`. Once it is known
which calls hold, every definite goal without variables is true or not, and a clause whose body is true makes its head
hold. The least model of a program is the least set of calls that is closed under this. It is a fixed point: a call
holds in it exactly if some clause makes it hold.
-/

namespace HornLoops

/-- Names of control constructs are no names of predicates. -/
theorem Goal.isJunction_eq_false {name : String} {left right : Term}
    (ordinary : Goal.ofCall name [left, right] = .predicate name [left, right]) : isJunction name = false := by
  refine Bool.eq_false_iff.mpr fun junction => ?_
  simp only [isJunction, Bool.or_eq_true, decide_eq_true_eq] at junction
  rcases junction with (rfl | rfl) | rfl <;> contradiction

/-! ## Terms without variables -/

/-- Values without variables for all variables. -/
structure Valuation where
  /-- The value of each variable. -/
  value : Nat → Term
  /-- The values have no variables. -/
  ground : ∀ id, (value id).isGround = true

namespace Term

theorem isGround_iff {term : Term} : term.isGround = true ↔ ∀ id, id ∉ term.occurrences := by
  simp [isGround, List.eq_nil_iff_forall_not_mem]

theorem isGround_subst {term : Term} {replace : Nat → Term} :
    (term.subst replace).isGround = true ↔ ∀ id ∈ term.occurrences, (replace id).isGround = true := by
  simp only [isGround_iff, mem_occurrences_subst, not_exists, not_and]
  constructor
  · intro none id occurs other
    exact none other id occurs
  · intro none other id occurs
    exact none id occurs other

/-- The instances of a term that have no variables. -/
def groundInstances (term : Term) : Set Term :=
  {ground | ground.isGround = true ∧ ∃ replace, ground = term.subst replace}

/-- Instances without variables come from values without variables. -/
theorem mem_groundInstances {term ground : Term} :
    ground ∈ term.groundInstances ↔ ∃ valuation : Valuation, ground = term.subst valuation.value := by
  constructor
  · rintro ⟨solid, replace, rfl⟩
    -- Only the variables of the term need the values of the instance.
    let value (id : Nat) : Term := if (replace id).isGround = true then replace id else .truth
    have kept : ∀ id ∈ term.occurrences, replace id = value id := fun id occurs =>
      (if_pos (isGround_subst.mp solid id occurs)).symm
    have grounded : ∀ id, (value id).isGround = true := by
      intro id
      by_cases ground : (replace id).isGround = true
      · simp only [value, if_pos ground, ground]
      · simp only [value, if_neg ground]
        rfl
    exact ⟨⟨value, grounded⟩, subst_congr kept⟩
  · rintro ⟨valuation, rfl⟩
    exact ⟨isGround_subst.mpr fun id _ => valuation.ground id, valuation.value, rfl⟩

@[simp] theorem subst_truth (replace : Nat → Term) : truth.subst replace = truth := rfl

@[simp] theorem subst_both (replace : Nat → Term) (left right : Term) :
    (both left right).subst replace = both (left.subst replace) (right.subst replace) := rfl

theorem build_inj {name name' : String} {args args' : List Term} :
    build name args = build name' args' ↔ name = name' ∧ args = args' := by
  cases args <;> cases args' <;> simp [build]

/-- A term with a name consists of the name and its arguments. -/
theorem eq_build_of_nameArity? {term : Term} {name : String} {arity : Nat}
    (named : term.nameArity? = some (name, arity)) : term = build name term.args ∧ term.args.length = arity := by
  cases term with
  | var id => simp [nameArity?] at named
  | int value => simp [nameArity?] at named
  | atom own =>
    obtain ⟨rfl, rfl⟩ : own = name ∧ 0 = arity := by simpa [nameArity?] using named
    exact ⟨rfl, rfl⟩
  | compound own first rest =>
    obtain ⟨rfl, rfl⟩ : own = name ∧ rest.length + 1 = arity := by simpa [nameArity?] using named
    exact ⟨rfl, rfl⟩

/-! ## Truth -/

/-- Whether a definite goal without variables is true, given the calls that hold. Terms are equal if they are the
same. -/
def TrueIn (facts : Set Term) : Term → Prop
  | .compound name left [right] =>
    if name = "," then TrueIn facts left ∧ TrueIn facts right
    else if name = ";" then TrueIn facts left ∨ TrueIn facts right
    else if name = "=" then left = right
    else .compound name left [right] ∈ facts
  | goal => goal = .truth ∨ (goal ≠ .atom "fail" ∧ goal ∈ facts)

section

variable {facts : Set Term} {left right : Term}

@[simp] theorem trueIn_truth : TrueIn facts .truth := .inl rfl

@[simp] theorem not_trueIn_failure : ¬ TrueIn facts (.atom "fail") := by
  simp [TrueIn, truth]

@[simp] theorem trueIn_both : TrueIn facts (.both left right) ↔ TrueIn facts left ∧ TrueIn facts right := by
  simp [both, binary, TrueIn]

@[simp] theorem trueIn_either :
    TrueIn facts (.binary ";" left right) ↔ TrueIn facts left ∨ TrueIn facts right := by
  simp [binary, TrueIn]

@[simp] theorem trueIn_equal : TrueIn facts (.binary "=" left right) ↔ left = right := by
  simp [binary, TrueIn]

/-- A call is true if it holds. -/
theorem trueIn_call {name : String} {args : List Term} (ordinary : Goal.ofCall name args = .predicate name args) :
    TrueIn facts (.build name args) ↔ .build name args ∈ facts := by
  match args with
  | [] =>
    have nontrivial : name ≠ "true" := by
      rintro rfl
      contradiction
    have possible : name ≠ "fail" := by
      rintro rfl
      contradiction
    simp [build, TrueIn, truth, nontrivial, possible]
  | [_] => simp [build, TrueIn, truth]
  | [_, _] =>
    have nonjunction : name ≠ "," ∧ name ≠ ";" ∧ name ≠ "=" := by
      refine ⟨?_, ?_, ?_⟩ <;> rintro rfl <;> contradiction
    simp [build, TrueIn, nonjunction]
  | _ :: _ :: _ :: _ => simp [build, TrueIn, truth]

/-- More calls that hold make more goals true. -/
theorem TrueIn.mono {facts' : Set Term} (more : facts ⊆ facts') {goal : Term} :
    TrueIn facts goal → TrueIn facts' goal := by
  induction goal with
  | var id => exact Or.imp_right (And.imp_right (@more _))
  | int value => exact Or.imp_right (And.imp_right (@more _))
  | atom name => exact Or.imp_right (And.imp_right (@more _))
  | compound name first rest ihFirst ihRest =>
    match rest with
    | [] => exact Or.imp_right (And.imp_right (@more _))
    | [second] =>
      have ihSecond := ihRest second (by simp)
      simp only [TrueIn]
      split_ifs
      · exact And.imp ihFirst ihSecond
      · exact Or.imp ihFirst ihSecond
      · exact id
      · exact @more _
    | _ :: _ :: _ => exact Or.imp_right (And.imp_right (@more _))

end

end Term

/-! ## Definite programs -/

/-- Goals of `true`, `fail`, equations and calls of given predicates, joined by `,` and `;`. -/
inductive Definite (predicates : Set (String × Nat)) : Term → Prop
  | truth : Definite predicates .truth
  | failure : Definite predicates (.atom "fail")
  | both {left right : Term} : Definite predicates left → Definite predicates right →
    Definite predicates (.both left right)
  | either {left right : Term} : Definite predicates left → Definite predicates right →
    Definite predicates (.binary ";" left right)
  | equal (left right : Term) : Definite predicates (.binary "=" left right)
  | call {name : String} {args : List Term} (member : (name, args.length) ∈ predicates) :
    Definite predicates (.build name args)

/-- Predicates that a machine defines by definite clauses. -/
structure Machine.DefinitePart (machine : Machine) (predicates : Set (String × Nat)) : Prop where
  /-- Their names have no other meaning. -/
  ordinary : ∀ name args, (name, args.length) ∈ predicates → Goal.ofCall name args = .predicate name args
  /-- The bodies of their clauses are definite. -/
  definite : ∀ name arity, (name, arity) ∈ predicates → ∀ clause ∈ machine.program.clausesFor name arity,
    Definite predicates clause.body
  /-- The variables of their clauses are numbered from zero, as those of every clause that is added. -/
  closed : ∀ name arity, (name, arity) ∈ predicates → ∀ clause ∈ machine.program.clausesFor name arity,
    clause.head.Below clause.width ∧ clause.body.Below clause.width
  /-- No procedure of a loop stands in for a predicate without clauses. -/
  undefined : ∀ name arity, (name, arity) ∈ predicates → machine.program.clausesFor name arity = [] →
    machine.procedures.named? name = none

namespace Definite

variable {predicates : Set (String × Nat)}

theorem rename {goal : Term} (definite : Definite predicates goal) (number : Nat → Nat) :
    Definite predicates (goal.rename number) := by
  induction definite with
  | truth => exact .truth
  | failure => exact .failure
  | both _ _ ihLeft ihRight => exact .both ihLeft ihRight
  | either _ _ ihLeft ihRight => exact .either ihLeft ihRight
  | equal left right => exact .equal _ _
  | @call name args member =>
    rw [Term.rename_build]
    exact .call (by simpa using member)

theorem isVar_eq_false {goal : Term} (definite : Definite predicates goal) : goal.isVar = false := by
  cases definite with
  | @call name args member => cases args <;> rfl
  | _ => rfl

/-- A call of a predicate that is definite calls one of the given predicates. -/
theorem mem_of_call {name : String} {args : List Term} (ordinary : Goal.ofCall name args = .predicate name args)
    (definite : Definite predicates (.build name args)) : (name, args.length) ∈ predicates := by
  have asked : Goal.ofTerm (.build name args) = .ok (.predicate name args) := by
    rw [Goal.ofTerm_build, ordinary]
  generalize shape : Term.build name args = goal at definite asked
  cases definite with
  | call member =>
    obtain ⟨rfl, rfl⟩ := Term.build_inj.mp shape
    exact member
  | _ => cases asked

variable {machine : Machine} (part : machine.DefinitePart predicates)
include part

/-- The two goals of a conjunction or an alternative are definite. -/
theorem of_junction {name : String} (junction : isJunction name = true) {left right : Term}
    (definite : Definite predicates (.binary name left right)) :
    Definite predicates left ∧ Definite predicates right := by
  generalize shape : Term.binary name left right = goal at definite
  cases definite with
  | truth => cases shape
  | failure => cases shape
  | both left' right' =>
    cases shape
    exact ⟨left', right'⟩
  | either left' right' =>
    cases shape
    exact ⟨left', right'⟩
  | equal left' right' =>
    cases shape
    contradiction
  | @call name' args member =>
    obtain ⟨rfl, rfl⟩ : name = name' ∧ [left, right] = args := Term.build_inj.mp shape
    rw [Goal.isJunction_eq_false (part.ordinary _ _ member)] at junction
    contradiction

/-- A definite goal is no condition with a consequence. -/
theorem binary?_arrow {goal : Term} (definite : Definite predicates goal) : goal.binary? "->" = none := by
  cases definite with
  | @call name args member =>
    have ordinary := part.ordinary name args member
    match args with
    | [left, right] =>
      have other : name ≠ "->" := by
        rintro rfl
        contradiction
      simp [Term.build, Term.binary?, other]
    | [] => rfl
    | [_] => rfl
    | _ :: _ :: _ :: _ => rfl
  | _ => rfl

end Definite

/-! ## The least model -/

namespace Program

/-- What clauses for given predicates make hold if their bodies are true, given the calls that hold. -/
def consequences (program : Program) (predicates : Set (String × Nat)) : Set Term →o Set Term where
  toFun facts := {call | ∃ name arity, (name, arity) ∈ predicates ∧ ∃ clause ∈ program.clausesFor name arity,
    ∃ valuation : Valuation, (clause.body.subst valuation.value).TrueIn facts ∧
      call = clause.head.subst valuation.value}
  monotone' := by
    rintro facts facts' more call ⟨name, arity, member, clause, among, valuation, true', rfl⟩
    exact ⟨name, arity, member, clause, among, valuation, true'.mono more, rfl⟩

/-- The least set of calls that is closed under the clauses for given predicates. -/
def leastModel (program : Program) (predicates : Set (String × Nat)) : Set Term :=
  (program.consequences predicates).lfp

/-- A call holds in the least model exactly if the body of a clause is true in it for values that make the head the
call. -/
theorem mem_leastModel {program : Program} {predicates : Set (String × Nat)} {name : String} {args : List Term}
    (member : (name, args.length) ∈ predicates) :
    .build name args ∈ program.leastModel predicates ↔
      ∃ clause ∈ program.clausesFor name args.length, ∃ valuation : Valuation,
        (clause.body.subst valuation.value).TrueIn (program.leastModel predicates) ∧
          clause.head.args.map (Term.subst valuation.value) = args := by
  have fixed : program.consequences predicates (program.leastModel predicates) = program.leastModel predicates :=
    OrderHom.map_lfp _
  have head : ∀ {name' arity} {clause : Clause}, clause ∈ program.clausesFor name' arity →
      clause.head = .build name' clause.head.args ∧ clause.head.args.length = arity := by
    intro name' arity clause among
    exact Term.eq_build_of_nameArity? (by simpa using (List.mem_filter.mp among).2)
  constructor
  · intro holds
    rw [← fixed] at holds
    obtain ⟨name', arity, _, clause, among, valuation, true', same⟩ := holds
    obtain ⟨named, rfl⟩ := head among
    rw [named, Term.subst_build] at same
    obtain ⟨rfl, rfl⟩ := Term.build_inj.mp same
    exact ⟨clause, by simpa using among, valuation, true', rfl⟩
  · rintro ⟨clause, among, valuation, true', rfl⟩
    rw [← fixed]
    refine ⟨name, _, member, clause, among, valuation, true', ?_⟩
    conv_rhs => rw [(head among).1, Term.subst_build]

end Program

end HornLoops
