import HornLoops.Proofs.Bindings.Solutions
import HornLoops.Proofs.Definite.Model

/-!
# The search for solutions of definite goals

What is left to do in the middle of a search is a sequence of goals over a store. One step takes the first goal apart,
drops it if it succeeded, or replaces it by the body of a clause whose head it was unified with. The instances of a
term under all values that satisfy the store and make the goals true in the least model are neither lost nor invented
by a step: they are the instances of the resolvents that can be next.
-/

namespace HornLoops

/-- Goals that are left to be solved, in order, over a store. -/
structure Resolvent where
  /-- The goals. -/
  goals : List Term
  /-- What is known about their variables. -/
  bindings : Bindings

namespace Resolvent

/-! ## Steps -/

/-- The steps from the first goal of a resolvent. -/
inductive Step (program : Program) : Resolvent → Resolvent → Prop
  /-- A goal that is true is dropped. -/
  | truth {goals : List Term} {bindings : Bindings} : Step program ⟨.truth :: goals, bindings⟩ ⟨goals, bindings⟩
  /-- Both goals of a conjunction are left to be solved. -/
  | both {left right : Term} {goals : List Term} {bindings : Bindings} :
    Step program ⟨.both left right :: goals, bindings⟩ ⟨left :: right :: goals, bindings⟩
  /-- One of two alternatives is chosen. -/
  | either {left right chosen : Term} {goals : List Term} {bindings : Bindings} (choice : chosen ∈ [left, right]) :
    Step program ⟨.binary ";" left right :: goals, bindings⟩ ⟨chosen :: goals, bindings⟩
  /-- The sides of an equation are unified. -/
  | equal {fuel : Nat} {left right : Term} {goals : List Term} {bindings after : Bindings}
    (unified : bindings.unifyAll fuel [left] [right] = (some true, after)) :
    Step program ⟨.binary "=" left right :: goals, bindings⟩ ⟨goals, after⟩
  /-- A call is unified with the head of a copy of a clause, whose body is left to be solved. -/
  | call {fuel : Nat} {name : String} {args goals : List Term} {bindings after : Bindings} {clause : Clause}
    (ordinary : Goal.ofCall name args = .predicate name args)
    (among : clause ∈ program.clausesFor name args.length)
    (unified : (bindings.reserve (bindings.size + clause.width)).unifyAll fuel
      (clause.instantiate bindings.size).1 args = (some true, after)) :
    Step program ⟨.build name args :: goals, bindings⟩ ⟨(clause.instantiate bindings.size).2 :: goals, after⟩

/-- The resolvents that a search comes to. -/
abbrev Reaches (program : Program) : Resolvent → Resolvent → Prop := Relation.ReflTransGen (Step program)

/-- No unification on the way makes a circle. -/
def CircleFree (program : Program) (start : Resolvent) : Prop :=
  ∀ resolvent, Reaches program start resolvent → resolvent.bindings.Acyclic

/-- A resolvent that is in order: its store is, and its goals are definite and over the variables of the store. There
are at least as many variables as at the start of the search. -/
structure Proper (predicates : Set (String × Nat)) (limit : Nat) (resolvent : Resolvent) : Prop where
  formed : resolvent.bindings.WellFormed
  size : limit ≤ resolvent.bindings.size
  definite : ∀ goal ∈ resolvent.goals, Definite predicates goal
  below : resolvent.bindings.AllBelow resolvent.goals

end Resolvent

/-- The copy of a clause is over the variables that were taken for it. -/
theorem Clause.below_instantiate {clause : Clause} (below : clause.head.Below clause.width ∧
    clause.body.Below clause.width) (next : Nat) :
    (∀ param ∈ (clause.instantiate next).1, param.Below (next + clause.width)) ∧
      (clause.instantiate next).2.Below (next + clause.width) := by
  have copied : ∀ {term : Term}, term.Below clause.width → (term.rename (next + ·)).Below (next + clause.width) :=
    fun inside => Term.forall_mem_rename fun id occurs => Nat.add_lt_add_left (inside id occurs) next
  exact ⟨List.forall_mem_map.mpr fun arg inside => copied (below.1.args arg inside), copied below.2⟩

namespace Resolvent

section

variable {machine : Machine} {predicates : Set (String × Nat)} {limit : Nat}

namespace Proper

variable {goal : Term} {goals : List Term} {bindings : Bindings}

theorem first (proper : Proper predicates limit ⟨goal :: goals, bindings⟩) :
    Definite predicates goal ∧ goal.Below bindings.size :=
  ⟨proper.definite goal (by simp), proper.below goal (by simp)⟩

/-- The first goal may be replaced by other goals, and variables may be added and bound. -/
theorem replace (proper : Proper predicates limit ⟨goal :: goals, bindings⟩) (others : List Term)
    {after : Bindings} (formed : after.WellFormed) (size : bindings.size ≤ after.size)
    (definite : ∀ other ∈ others, Definite predicates other) (below : after.AllBelow others) :
    Proper predicates limit ⟨others ++ goals, after⟩ where
  formed := formed
  size := proper.size.trans size
  definite := by
    rw [List.forall_mem_append]
    exact ⟨definite, (List.forall_mem_cons.mp proper.definite).2⟩
  below := by
    rw [Bindings.AllBelow, List.forall_mem_append]
    exact ⟨below, fun other member => (proper.below other (by simp [member])).mono size⟩

/-- The sides of an equation are over the variables of the store. -/
theorem below_equal {left right : Term}
    (proper : Proper predicates limit ⟨.binary "=" left right :: goals, bindings⟩) :
    bindings.AllBelow [left] ∧ bindings.AllBelow [right] := by
  have below := Term.below_compound.mp proper.first.2
  simpa [Bindings.AllBelow] using below

end Proper

variable (part : machine.DefinitePart predicates)
include part

/-- What a call comes to when its arguments are unified with the copy of a clause. -/
theorem Proper.below_call {name : String} {args goals : List Term} {bindings : Bindings} {clause : Clause}
    (proper : Proper predicates limit ⟨.build name args :: goals, bindings⟩)
    (ordinary : Goal.ofCall name args = .predicate name args)
    (among : clause ∈ machine.program.clausesFor name args.length) :
    (bindings.reserve (bindings.size + clause.width)).AllBelow (clause.instantiate bindings.size).1 ∧
      (bindings.reserve (bindings.size + clause.width)).AllBelow args ∧
      (clause.instantiate bindings.size).2.Below (bindings.reserve (bindings.size + clause.width)).size ∧
      Definite predicates (clause.instantiate bindings.size).2 := by
  have member : (name, args.length) ∈ predicates := proper.first.1.mem_of_call ordinary
  have inside := Clause.below_instantiate (part.closed name _ member clause among) bindings.size
  have size : (bindings.reserve (bindings.size + clause.width)).size = bindings.size + clause.width := by simp
  have args' := Term.below_build.mp proper.first.2
  refine ⟨?_, ?_, ?_, (part.definite name _ member clause among).rename _⟩
  · rw [Bindings.AllBelow, size]
    exact inside.1
  · intro arg member
    exact (args' arg member).mono (by omega)
  · rw [size]
    exact inside.2

/-- A step keeps a resolvent in order. -/
theorem Step.proper {before after : Resolvent} (step : Step machine.program before after)
    (proper : before.Proper predicates limit) : after.Proper predicates limit := by
  have formed := proper.formed
  cases step with
  | truth => exact proper.replace [] formed (Nat.le_refl _) (by simp) (by simp [Bindings.AllBelow])
  | @both left right goals bindings =>
    have definite := proper.first.1.of_junction part (show isJunction "," = true from rfl)
    have below := Term.below_compound.mp proper.first.2
    exact proper.replace [left, right] formed (Nat.le_refl _) (by simp [definite])
      (by simpa [Bindings.AllBelow] using below)
  | @either left right chosen goals bindings choice =>
    have definite := proper.first.1.of_junction part (show isJunction ";" = true from rfl)
    have below := Term.below_compound.mp proper.first.2
    have either : Definite predicates chosen ∧ chosen.Below bindings.size := by
      rcases List.mem_pair.mp choice with rfl | rfl
      · exact ⟨definite.1, below.1⟩
      · exact ⟨definite.2, below.2 _ (by simp)⟩
    exact proper.replace [chosen] formed (Nat.le_refl _) (by simp [either.1]) (by simp [Bindings.AllBelow, either.2])
  | @equal fuel left right goals bindings after unified =>
    have equated := Bindings.equated_of_unifyAll formed proper.below_equal.1 proper.below_equal.2 unified
    exact proper.replace [] equated.formed equated.size.ge (by simp) (by simp [Bindings.AllBelow])
  | @call fuel name args goals bindings after clause ordinary among unified =>
    obtain ⟨params, args', body, definite⟩ := proper.below_call part ordinary among
    have equated := Bindings.equated_of_unifyAll (formed.reserve _) params args' unified
    refine proper.replace [(clause.instantiate bindings.size).2] equated.formed ?_ (by simpa) ?_
    · rw [equated.size, Bindings.size_reserve]
      omega
    · rw [Bindings.AllBelow, equated.size]
      simpa using body

/-- All resolvents of a search are in order. -/
theorem Reaches.proper {start resolvent : Resolvent} (reaches : Reaches machine.program start resolvent)
    (proper : start.Proper predicates limit) : resolvent.Proper predicates limit := by
  induction reaches with
  | refl => exact proper
  | tail _ step ih => exact step.proper part ih

end

/-! ## Solutions -/

/-- The instances of a term under all values that satisfy the store and make the goals true. -/
def solutions (facts : Set Term) (template : Term) (resolvent : Resolvent) : Set Term :=
  {ground | ∃ valuation : Valuation, resolvent.bindings.Satisfies valuation.value ∧
    (∀ goal ∈ resolvent.goals, (goal.subst valuation.value).TrueIn facts) ∧
    ground = template.subst valuation.value}

theorem mem_solutions {facts : Set Term} {template ground : Term} {goals : List Term} {bindings : Bindings} :
    ground ∈ solutions facts template ⟨goals, bindings⟩ ↔ ∃ valuation : Valuation,
      bindings.Satisfies valuation.value ∧ (∀ goal ∈ goals, (goal.subst valuation.value).TrueIn facts) ∧
        ground = template.subst valuation.value := Iff.rfl

section

variable (facts : Set Term) (template : Term) (goals : List Term) (bindings : Bindings)

theorem solutions_truth :
    solutions facts template ⟨.truth :: goals, bindings⟩ = solutions facts template ⟨goals, bindings⟩ := by
  ext ground
  simp [mem_solutions]

theorem solutions_failure : solutions facts template ⟨.atom "fail" :: goals, bindings⟩ = ∅ := by
  ext ground
  simp [mem_solutions]

theorem solutions_both (left right : Term) :
    solutions facts template ⟨.both left right :: goals, bindings⟩ =
      solutions facts template ⟨left :: right :: goals, bindings⟩ := by
  ext ground
  simp [mem_solutions, and_assoc]

theorem solutions_either (left right : Term) :
    solutions facts template ⟨.binary ";" left right :: goals, bindings⟩ =
      solutions facts template ⟨left :: goals, bindings⟩ ∪ solutions facts template ⟨right :: goals, bindings⟩ := by
  ext ground
  simp only [Set.mem_union, mem_solutions, List.forall_mem_cons, Term.subst_binary, Term.trueIn_either]
  constructor
  · rintro ⟨valuation, satisfies, ⟨true' | true', others⟩, same⟩
    · exact .inl ⟨valuation, satisfies, ⟨true', others⟩, same⟩
    · exact .inr ⟨valuation, satisfies, ⟨true', others⟩, same⟩
  · rintro (⟨valuation, satisfies, ⟨true', others⟩, same⟩ | ⟨valuation, satisfies, ⟨true', others⟩, same⟩)
    · exact ⟨valuation, satisfies, ⟨.inl true', others⟩, same⟩
    · exact ⟨valuation, satisfies, ⟨.inr true', others⟩, same⟩

variable {bindings}

theorem solutions_equal {left right : Term} {after : Bindings} (equated : bindings.Equated [left] [right] after) :
    solutions facts template ⟨.binary "=" left right :: goals, bindings⟩ =
      solutions facts template ⟨goals, after⟩ := by
  ext ground
  simp [mem_solutions, equated.solutions, and_assoc]

theorem solutions_unequal {left right : Term} (unsolvable : ∀ solution, bindings.Satisfies solution →
    [left].map (Term.subst solution) ≠ [right].map (Term.subst solution)) :
    solutions facts template ⟨.binary "=" left right :: goals, bindings⟩ = ∅ := by
  ext ground
  simp only [mem_solutions, Set.mem_empty_iff_false, iff_false]
  rintro ⟨valuation, satisfies, true', _⟩
  have same := true' (.binary "=" left right) (by simp)
  rw [Term.subst_binary, Term.trueIn_equal] at same
  exact unsolvable valuation.value satisfies (by simp [same])

end

/-! ## Solutions by clauses -/

end Resolvent

/-- Values from one valuation below a limit and from another one, counted from zero, above it. -/
def Valuation.extend (low high : Valuation) (limit : Nat) : Valuation where
  value id := if id < limit then low.value id else high.value (id - limit)
  ground id := by
    split_ifs
    · exact low.ground id
    · exact high.ground _

/-- The values from a number on, counted from zero. -/
def Valuation.drop (valuation : Valuation) (limit : Nat) : Valuation where
  value id := valuation.value (limit + id)
  ground _ := valuation.ground _

namespace Term

variable {low high : Valuation} {limit : Nat} {term : Term}

theorem subst_extend (below : term.Below limit) :
    term.subst (low.extend high limit).value = term.subst low.value :=
  subst_congr fun id occurs => if_pos (below id occurs)

theorem rename_subst_extend :
    (term.rename (limit + ·)).subst (low.extend high limit).value = term.subst high.value := by
  rw [rename, subst_subst]
  refine subst_congr fun id _ => ?_
  simp [Valuation.extend]

theorem rename_subst : (term.rename (limit + ·)).subst low.value = term.subst (low.drop limit).value := by
  rw [rename, subst_subst]
  rfl

end Term

namespace Resolvent

/-- The solutions of a call before some goals by a clause. -/
def solutionsBy (facts : Set Term) (template : Term) (args goals : List Term) (bindings : Bindings)
    (clause : Clause) : Set Term :=
  {ground | ∃ valuation : Valuation, bindings.Satisfies valuation.value ∧
    (clause.instantiate bindings.size).1.map (Term.subst valuation.value) =
      args.map (Term.subst valuation.value) ∧
    (∀ goal ∈ (clause.instantiate bindings.size).2 :: goals, (goal.subst valuation.value).TrueIn facts) ∧
    ground = template.subst valuation.value}

section

variable {facts : Set Term} {template : Term} {args goals : List Term} {bindings : Bindings} {clause : Clause}

theorem mem_solutionsBy {ground : Term} : ground ∈ solutionsBy facts template args goals bindings clause ↔
    ∃ valuation : Valuation, bindings.Satisfies valuation.value ∧
      (clause.instantiate bindings.size).1.map (Term.subst valuation.value) =
        args.map (Term.subst valuation.value) ∧
      (∀ goal ∈ (clause.instantiate bindings.size).2 :: goals, (goal.subst valuation.value).TrueIn facts) ∧
      ground = template.subst valuation.value := Iff.rfl

theorem solutionsBy_unified {after : Bindings}
    (equated : (bindings.reserve (bindings.size + clause.width)).Equated (clause.instantiate bindings.size).1 args
      after) :
    solutionsBy facts template args goals bindings clause =
      solutions facts template ⟨(clause.instantiate bindings.size).2 :: goals, after⟩ := by
  ext ground
  simp [mem_solutionsBy, mem_solutions, equated.solutions, and_assoc]

theorem solutionsBy_clash
    (unsolvable : ∀ solution, (bindings.reserve (bindings.size + clause.width)).Satisfies solution →
      (clause.instantiate bindings.size).1.map (Term.subst solution) ≠ args.map (Term.subst solution)) :
    solutionsBy facts template args goals bindings clause = ∅ := by
  ext ground
  simp only [mem_solutionsBy, Set.mem_empty_iff_false, iff_false]
  rintro ⟨valuation, satisfies, same, _⟩
  exact unsolvable valuation.value (Bindings.satisfies_reserve.mpr satisfies) same

end

/-- Every solution of a call is a solution by some clause, and the other way round: the copy of a clause has variables
of its own, so that their values can be chosen freely. -/
theorem solutions_call {machine : Machine} {predicates : Set (String × Nat)} (part : machine.DefinitePart predicates)
    {limit : Nat} {name : String} {args goals : List Term} {bindings : Bindings}
    (proper : Proper predicates limit ⟨.build name args :: goals, bindings⟩)
    (member : (name, args.length) ∈ predicates) {template : Term} (shown : template.Below limit) :
    solutions (machine.program.leastModel predicates) template ⟨.build name args :: goals, bindings⟩ =
      ⋃ clause ∈ machine.program.clausesFor name args.length,
        solutionsBy (machine.program.leastModel predicates) template args goals bindings clause := by
  have below : ∀ goal ∈ goals, goal.Below bindings.size := (List.forall_mem_cons.mp proper.below).2
  have belowArgs : ∀ arg ∈ args, arg.Below bindings.size := Term.below_build.mp proper.first.2
  have called : ∀ valuation : Valuation,
      ((Term.build name args).subst valuation.value).TrueIn (machine.program.leastModel predicates) ↔
        ∃ clause ∈ machine.program.clausesFor name args.length, ∃ inner : Valuation,
          (clause.body.subst inner.value).TrueIn (machine.program.leastModel predicates) ∧
            clause.head.args.map (Term.subst inner.value) = args.map (Term.subst valuation.value) := by
    intro valuation
    have member' : (name, (args.map (Term.subst valuation.value)).length) ∈ predicates := by simpa using member
    rw [Term.subst_build, Term.trueIn_call (part.ordinary name _ member'), Program.mem_leastModel member',
      List.length_map]
  ext ground
  simp only [Set.mem_iUnion, mem_solutions, List.forall_mem_cons, called, mem_solutionsBy,
    Clause.instantiate, List.map_map]
  constructor
  · rintro ⟨valuation, satisfies, ⟨⟨clause, among, inner, body, heads⟩, others⟩, rfl⟩
    have old : ∀ {term : Term}, term.Below bindings.size →
        term.subst (valuation.extend inner bindings.size).value = term.subst valuation.value := Term.subst_extend
    refine ⟨clause, among, valuation.extend inner bindings.size, ?_, ?_, ⟨?_, ?_⟩, ?_⟩
    · exact proper.formed.satisfies_congr satisfies fun id inside => if_pos inside
    · calc clause.head.args.map (Term.subst (valuation.extend inner bindings.size).value ∘
              Term.rename (bindings.size + ·))
          = clause.head.args.map (Term.subst inner.value) :=
            List.map_congr_left fun arg _ => Term.rename_subst_extend
        _ = args.map (Term.subst valuation.value) := heads
        _ = args.map (Term.subst (valuation.extend inner bindings.size).value) :=
            List.map_congr_left fun arg inside => (old (belowArgs arg inside)).symm
    · rw [Term.rename_subst_extend]
      exact body
    · intro goal inside
      rw [old (below goal inside)]
      exact others goal inside
    · exact (old (shown.mono proper.size)).symm
  · rintro ⟨clause, among, valuation, satisfies, heads, ⟨body, others⟩, rfl⟩
    refine ⟨valuation, satisfies, ⟨⟨clause, among, valuation.drop bindings.size, ?_, ?_⟩, others⟩, rfl⟩
    · rw [← Term.rename_subst]
      exact body
    · rw [← heads]
      exact List.map_congr_left fun arg _ => Term.rename_subst.symm

end Resolvent

end HornLoops
