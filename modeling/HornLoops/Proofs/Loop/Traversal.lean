import HornLoops.Loop.Traversal
import HornLoops.Proofs.Term.Renaming

/-!
# The walk through goals

The walk that looks for loops sees a goal as a modality, as a junction, as a loop, or as something that it does
not enter. This module says so once, with an induction principle and the equations of the walk for each of the
four cases.
-/

namespace HornLoops

/-- Whether the walk leaves a goal alone. -/
def IsLeaf : Term → Prop
  | .compound name _ [] => isModality name = false
  | .compound name left [_] => isJunction name = false ∧ (name = "do" → left.isVar = true)
  | _ => True

/-- Induction over goals as the walk sees them. -/
@[elab_as_elim]
theorem goalInduction {motive : Term → Prop}
    (modality : ∀ name inner, isModality name = true → motive inner → motive (.unary name inner))
    (junction : ∀ name left right, isJunction name = true → motive left → motive right →
      motive (.binary name left right))
    (loop : ∀ specs body, specs.isVar = false → motive body → motive (.binary "do" specs body))
    (leaf : ∀ goal, IsLeaf goal → motive goal) (goal : Term) : motive goal := by
  induction goal with
  | var id => exact leaf _ trivial
  | int value => exact leaf _ trivial
  | atom name => exact leaf _ trivial
  | compound name first rest ihFirst ihRest =>
    match rest with
    | [] =>
      by_cases walked : isModality name = true
      · exact modality name first walked ihFirst
      · exact leaf _ (by simpa [IsLeaf] using walked)
    | [second] =>
      have ihSecond := ihRest second (by simp)
      by_cases walked : isJunction name = true
      · exact junction name first second walked ihFirst ihSecond
      · by_cases isLoop : name = "do" ∧ first.isVar = false
        · obtain ⟨rfl, known⟩ := isLoop
          exact loop first second known ihSecond
        · refine leaf _ ⟨by simpa using walked, ?_⟩
          intro named
          simpa [named] using isLoop
    | _ :: _ :: _ => exact leaf _ trivial

section

variable {m : Type → Type} [Monad m] (treat : LoopTreatment m)

theorem treatGoal_modality {name : String} (walked : isModality name = true) (inner : Term)
    (outside : VarSet) :
    treatGoal treat (.unary name inner) outside = do
      let (inner, findings) ← treatGoal treat inner outside
      return (.unary name inner, findings) := by
  simp only [Term.unary, treatGoal, walked, if_true]

theorem treatGoal_junction {name : String} (walked : isJunction name = true) (left right : Term)
    (outside : VarSet) :
    treatGoal treat (.binary name left right) outside = do
      let (left', findings) ← treatGoal treat left (outside.extend right.occurrences)
      let (right', more) ← treatGoal treat right (outside.extend left.occurrences)
      return (.binary name left' right', findings ++ more) := by
  simp only [Term.binary, treatGoal, walked, if_true]

theorem treatGoal_loop {specs : Term} (known : specs.isVar = false) (body : Term) (outside : VarSet) :
    treatGoal treat (.binary "do" specs body) outside =
      treat specs body outside (treatGoal treat body) := by
  have other : isJunction "do" = false := by decide
  simp [Term.binary, treatGoal, other, known]

theorem treatGoal_leaf {goal : Term} (leaf : IsLeaf goal) (outside : VarSet) :
    treatGoal treat goal outside = return (goal, []) := by
  match goal with
  | .var _ => rfl
  | .int _ => rfl
  | .atom _ => rfl
  | .compound name first [] =>
    have skipped : isModality name = false := leaf
    simp [treatGoal, skipped, Term.unary]
  | .compound name left [right] =>
    obtain ⟨skipped, unknown⟩ := leaf
    by_cases named : name = "do"
    · simp [treatGoal, skipped, unknown named, Term.binary]
    · simp [treatGoal, skipped, named, Term.binary]
  | .compound _ _ (_ :: _ :: _) => rfl

theorem treatClause_rule (head body : Term) :
    treatClause treat (.binary ":-" head body) =
      treatGoal treat body head.vars >>= fun treated => pure (.binary ":-" head treated.1, treated.2) := by
  simp [treatClause, Term.binary, Term.binary?]

theorem treatClause_directive (goal : Term) :
    treatClause treat (.unary ":-" goal) =
      treatGoal treat goal [] >>= fun treated => pure (.unary ":-" treated.1, treated.2) := by
  simp [treatClause, Term.unary, Term.binary?, Term.unary?]

theorem treatClause_fact {clause : Term} (notRule : clause.binary? ":-" = none)
    (notDirective : clause.unary? ":-" = none) : treatClause treat clause = pure (clause, []) := by
  simp [treatClause, notRule, notDirective]

end

/-- A clause is a rule, a directive or a fact. -/
theorem Term.clause_cases (clause : Term) :
    (∃ head body, clause = .binary ":-" head body) ∨ (∃ goal, clause = .unary ":-" goal) ∨
      (clause.binary? ":-" = none ∧ clause.unary? ":-" = none) := by
  match clause with
  | .var _ | .int _ | .atom _ | .compound _ _ (_ :: _ :: _) => exact .inr (.inr ⟨rfl, rfl⟩)
  | .compound name first [] =>
    by_cases named : name = ":-"
    · exact .inr (.inl ⟨first, by rw [named, Term.unary]⟩)
    · exact .inr (.inr ⟨rfl, by simp [Term.unary?, named]⟩)
  | .compound name first [second] =>
    by_cases named : name = ":-"
    · exact .inl ⟨first, second, by rw [named, Term.binary]⟩
    · exact .inr (.inr ⟨by simp [Term.binary?, named], rfl⟩)

/-- Whether the walk finds no loop in a goal. -/
def Loopless : Term → Prop
  | .compound name inner [] => isModality name = true → Loopless inner
  | .compound name left [right] =>
    (isJunction name = true → Loopless left ∧ Loopless right) ∧ (name = "do" → left.isVar = true)
  | _ => True

variable {name : String} {goal : Term}

theorem loopless_modality (walked : isModality name = true) {inner : Term} :
    Loopless (.unary name inner) ↔ Loopless inner := by
  simp [Term.unary, Loopless, walked]

theorem loopless_junction (walked : isJunction name = true) {left right : Term} :
    Loopless (.binary name left right) ↔ Loopless left ∧ Loopless right := by
  have other : name ≠ "do" := by
    rintro rfl
    contradiction
  simp [Term.binary, Loopless, walked, other]

theorem not_loopless_loop {specs : Term} (known : specs.isVar = false) (body : Term) :
    ¬ Loopless (.binary "do" specs body) := by
  simp [Term.binary, Loopless, known]

theorem loopless_leaf (leaf : IsLeaf goal) : Loopless goal := by
  match goal with
  | .var _ => trivial
  | .int _ => trivial
  | .atom _ => trivial
  | .compound name first [] =>
    have skipped : isModality name = false := leaf
    simp [Loopless, skipped]
  | .compound name left [right] =>
    obtain ⟨skipped, unknown⟩ := leaf
    simpa [Loopless, skipped] using unknown
  | .compound _ _ (_ :: _ :: _) => trivial

/-- The walk does not change a goal without loops. -/
theorem treatGoal_loopless {m : Type → Type} [Monad m] [LawfulMonad m] (treat : LoopTreatment m)
    (loopless : Loopless goal) (outside : VarSet) : treatGoal treat goal outside = pure (goal, []) := by
  induction goal using goalInduction generalizing outside with
  | modality name inner walked ih =>
    rw [treatGoal_modality treat walked, ih ((loopless_modality walked).mp loopless), pure_bind]
  | junction name left right walked ihLeft ihRight =>
    obtain ⟨loopless, loopless'⟩ := (loopless_junction walked).mp loopless
    simp only [treatGoal_junction treat walked, ihLeft loopless, ihRight loopless', pure_bind, List.append_nil]
  | loop specs body known ih => exact absurd loopless (not_loopless_loop known body)
  | leaf goal leaf => exact treatGoal_leaf treat leaf outside

theorem IsLeaf.rename (leaf : IsLeaf goal) (number : Nat → Nat) : IsLeaf (goal.rename number) := by
  match goal with
  | .var _ => trivial
  | .int _ => trivial
  | .atom _ => trivial
  | .compound name first [] => simpa [IsLeaf] using leaf
  | .compound name left [right] =>
    cases left <;> simpa [IsLeaf, Term.isVar] using leaf
  | .compound name first (second :: third :: rest) => simp [IsLeaf]

/-- Renaming does not make loops. -/
theorem Loopless.rename (number : Nat → Nat) : Loopless goal → Loopless (goal.rename number) := by
  induction goal using goalInduction with
  | modality name inner walked ih =>
    simpa [Term.unary, Loopless, walked] using ih
  | junction name left right walked ihLeft ihRight =>
    rw [Term.rename_binary, loopless_junction walked, loopless_junction walked]
    exact fun loopless => ⟨ihLeft loopless.1, ihRight loopless.2⟩
  | loop specs body known ih => exact fun loopless => absurd loopless (not_loopless_loop known body)
  | leaf goal leaf => exact fun _ => loopless_leaf (leaf.rename number)

end HornLoops
