import HornLoops.Arithmetic
import HornLoops.Proofs.Bindings.WellFormed

/-!
# Levels of bindings

Operations that follow bindings pass through as many levels as the store has cells. What such an operation finds out
about the variables only becomes more with each level, and a level that adds nothing is the last one to do so. So there
are no more levels than variables: all that can be found out is found out within the levels that are tried, also if a
variable is bound to a term in which it occurs.
-/

namespace HornLoops

namespace Bindings

variable {α : Type}

/-- What is known of each variable after a number of levels: nothing of those that are unbound, and of the others what
their values are made of. -/
def found (bindings : Bindings) (nothing : α) (read : (Nat → α) → Term → α) : Nat → Nat → α
  | 0, _ => nothing
  | levels + 1, id =>
    match bindings.lookup? id with
    | some value => read (found bindings nothing read levels) value
    | none => nothing

variable {bindings : Bindings} {nothing : α} {read : (Nat → α) → Term → α}

theorem found_of_unbound {id : Nat} (unbound : bindings.lookup? id = none) (levels : Nat) :
    bindings.found nothing read levels id = nothing := by
  cases levels with
  | zero => rfl
  | succ levels => simp only [found, unbound]

/-- A level that adds nothing is followed by levels that add nothing. -/
theorem found_eq_of_still {few : Nat}
    (still : bindings.found nothing read (few + 1) = bindings.found nothing read few) {many : Nat} (le : few ≤ many) :
    bindings.found nothing read many = bindings.found nothing read few := by
  have step {levels : Nat} (same : bindings.found nothing read (levels + 1) = bindings.found nothing read levels) :
      bindings.found nothing read (levels + 2) = bindings.found nothing read (levels + 1) := by
    funext id
    simp only [found] at same ⊢
    rw [same]
  have each (more : Nat) : bindings.found nothing read (few + more + 1) = bindings.found nothing read (few + more) := by
    induction more with
    | zero => exact still
    | succ more ih => exact step ih
  obtain ⟨more, rfl⟩ := Nat.exists_eq_add_of_le le
  induction more with
  | zero => rfl
  | succ more ih => exact (each more).trans (ih (Nat.le_add_right few more))

section

variable (keeps : ∀ (known known' : Nat → α) (term : Term), (∀ id, known id ≠ nothing → known' id = known id) →
  read known term ≠ nothing → read known' term = read known term)
include keeps

/-- What is known stays known. -/
theorem found_succ_of_ne {levels id : Nat} (known : bindings.found nothing read levels id ≠ nothing) :
    bindings.found nothing read (levels + 1) id = bindings.found nothing read levels id := by
  induction levels generalizing id with
  | zero => exact absurd rfl known
  | succ levels ih =>
    cases cell : bindings.lookup? id with
    | none => rw [found_of_unbound cell, found_of_unbound cell]
    | some value =>
      simp only [found, cell] at known ⊢
      exact keeps _ _ value (fun _ => ih) known

/-- Unless a level adds nothing, something is known of more variables after it. -/
theorem found_still_or_card (bindings : Bindings) (levels : Nat) :
    (∃ few < levels, bindings.found nothing read (few + 1) = bindings.found nothing read few) ∨
      ∃ ids : Finset Nat, ids.card = levels ∧ ∀ id ∈ ids, bindings.found nothing read levels id ≠ nothing := by
  induction levels with
  | zero => exact .inr ⟨∅, rfl, by simp⟩
  | succ levels ih =>
    rcases ih with ⟨few, less, still⟩ | ⟨ids, many, known⟩
    · exact .inl ⟨few, Nat.lt_succ_of_lt less, still⟩
    by_cases still : bindings.found nothing read (levels + 1) = bindings.found nothing read levels
    · exact .inl ⟨levels, Nat.lt_succ_self levels, still⟩
    right
    obtain ⟨new, differs⟩ := Function.ne_iff.mp still
    have before : bindings.found nothing read levels new = nothing := by
      by_contra known
      exact differs (found_succ_of_ne keeps known)
    refine ⟨insert new ids, ?_, ?_⟩
    · rw [Finset.card_insert_of_notMem fun member => known new member before, many]
    · intro id member
      rcases Finset.mem_insert.mp member with rfl | member
      · rwa [before] at differs
      · rw [found_succ_of_ne keeps (known id member)]
        exact known id member

/-- All is known after as many levels as there are variables. -/
theorem found_eq_of_size_le {levels : Nat} (enough : bindings.size ≤ levels) :
    bindings.found nothing read levels = bindings.found nothing read bindings.size := by
  rcases found_still_or_card keeps bindings (bindings.size + 1) with ⟨few, less, still⟩ | ⟨ids, many, known⟩
  · have le := Nat.le_of_lt_succ less
    rw [found_eq_of_still still (Nat.le_trans le enough), found_eq_of_still still le]
  · -- There are not enough variables for something to be known of so many.
    have inside : ids ⊆ Finset.range bindings.size := by
      intro id member
      cases cell : bindings.lookup? id with
      | none => exact absurd (found_of_unbound cell _) (known id member)
      | some value => exact Finset.mem_range.mpr (lt_size_of_lookup? cell)
    have few := Finset.card_le_card inside
    rw [many, Finset.card_range] at few
    omega

end

end Bindings

/-! ## Expressions -/

namespace Arithmetic

theorem evalWith_congr {value value' : Nat → Value} {term : Term}
    (same : ∀ id ∈ term.occurrences, value id = value' id) : evalWith value term = evalWith value' term := by
  induction term with
  | var id => exact same id (by simp)
  | int n => rfl
  | atom name => rfl
  | compound name first rest ihFirst ihRest =>
    match rest with
    | [] => simp [evalWith, ihFirst fun id occurs => same id (by simp [occurs])]
    | [second] =>
      simp [evalWith, ihFirst fun id occurs => same id (by simp [occurs]),
        ihRest second (by simp) fun id occurs => same id (by simp [occurs])]
    | second :: third :: rest => simp [evalWith]

/-- An expression that has a value, or none for another reason than a variable without one, keeps it when more
variables have values. -/
theorem evalWith_eq_of_ne {value value' : Nat → Value} {term : Term}
    (same : ∀ id, value id ≠ .error .unbound → value' id = value id)
    (known : evalWith value term ≠ .error .unbound) : evalWith value' term = evalWith value term := by
  induction term with
  | var id => exact same id known
  | int n => rfl
  | atom name => rfl
  | compound name first rest ihFirst ihRest =>
    match rest with
    | [] =>
      by_cases one : evalWith value first = .error .unbound
      · simp [evalWith, one, bind, Except.bind] at known
      · simp [evalWith, ihFirst one]
    | [second] =>
      by_cases one : evalWith value first = .error .unbound
      · simp [evalWith, one, bind, Except.bind] at known
      cases here : evalWith value first with
      | error error => simp [evalWith, ihFirst one, here, bind, Except.bind]
      | ok part =>
        by_cases two : evalWith value second = .error .unbound
        · simp [evalWith, here, two, bind, Except.bind] at known
        · simp [evalWith, ihFirst one, ihRest second (by simp) two]
    | second :: third :: rest => simp [evalWith]

end Arithmetic

namespace Bindings

theorem evalWithin_eq_found (bindings : Bindings) (levels : Nat) (term : Term) :
    bindings.evalWithin levels term =
      Arithmetic.evalWith (bindings.found (.error .unbound) Arithmetic.evalWith levels) term := by
  induction levels generalizing term with
  | zero => rfl
  | succ levels ih =>
    rw [evalWithin]
    congr 1
    funext id
    cases cell : bindings.lookup? id with
    | none => simp [found, cell]
    | some value => simp [found, cell, ih value]

/-- More levels than there are variables do not give an expression another value. -/
theorem evalWithin_eq_eval {bindings : Bindings} {levels : Nat} (enough : bindings.size ≤ levels) (term : Term) :
    bindings.evalWithin levels term = bindings.eval term := by
  rw [eval, evalWithin_eq_found, evalWithin_eq_found]
  congr 1
  refine found_eq_of_size_le ?_ enough
  exact fun _ _ _ => Arithmetic.evalWith_eq_of_ne

end Bindings

end HornLoops
