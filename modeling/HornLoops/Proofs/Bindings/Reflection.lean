import HornLoops.Proofs.Bindings.Levels
import HornLoops.Proofs.Bindings.Mirror

/-!
# What is read off stores that mirror each other

Operations that follow bindings pass through as many levels as the store has cells, and stores that mirror each other
need not have equally many. This makes no difference: a chain of references that is longer than the store passes
through a variable twice, so it goes on forever. Bindings that come to an end at all therefore do so within the
levels that are tried, in both stores, and terms are resolved alike. Expressions are evaluated alike in any case, since
more levels do not give them other values.
-/

namespace HornLoops

namespace Bindings

variable {bindings : Bindings} {refers : Nat → Nat → Prop} {id : Nat}

/-! ## Chains of references -/

/-- A chain of a number of references starts at a variable, and all variables on it are bound. -/
def Descends (bindings : Bindings) (refers : Nat → Nat → Prop) : Nat → Nat → Prop
  | 0, id => (bindings.lookup? id).isSome
  | length + 1, id => (bindings.lookup? id).isSome ∧ ∃ other, refers id other ∧ bindings.Descends refers length other

theorem Descends.bound {length : Nat} (descends : bindings.Descends refers length id) :
    (bindings.lookup? id).isSome := by
  cases length with
  | zero => exact descends
  | succ length => exact descends.1

/-- A part of a chain is a chain. -/
theorem Descends.shorter {short long : Nat} (le : short ≤ long) (descends : bindings.Descends refers long id) :
    bindings.Descends refers short id := by
  induction short generalizing long id with
  | zero => exact descends.bound
  | succ short ih =>
    obtain ⟨long, rfl⟩ : ∃ rest, long = rest + 1 := ⟨long - 1, by omega⟩
    obtain ⟨bound, other, reference, rest⟩ := descends
    exact ⟨bound, other, reference, ih (by omega) rest⟩

/-- If chains from a variable are not arbitrarily long, no variable appears twice on them: the bound on their lengths
gets smaller from each variable to the next. -/
theorem Descends.exists_nodup {length limit : Nat} (descends : bindings.Descends refers length id)
    (limited : ¬ bindings.Descends refers limit id) :
    ∃ path : List Nat, path.length = length + 1 ∧ path.Nodup ∧
      ∀ other ∈ path, (bindings.lookup? other).isSome ∧ ¬ bindings.Descends refers limit other := by
  induction length generalizing id limit with
  | zero => exact ⟨[id], rfl, List.nodup_singleton _, by simpa using ⟨descends.bound, limited⟩⟩
  | succ length ih =>
    obtain ⟨bound, other, reference, rest⟩ := descends
    classical
    have finite : ∃ limit, ¬ bindings.Descends refers limit id := ⟨limit, limited⟩
    have least := Nat.find_spec finite
    have minimal : Nat.find finite ≤ limit := Nat.find_le limited
    have positive : Nat.find finite ≠ 0 := by
      intro zero
      rw [zero] at least
      exact least bound
    obtain ⟨below, same⟩ : ∃ below, Nat.find finite = below + 1 := ⟨_, (Nat.succ_pred positive).symm⟩
    have reached : bindings.Descends refers below id := not_not.mp (Nat.find_min finite (by omega))
    have limited' : ¬ bindings.Descends refers below other := by
      intro deeper
      rw [same] at least
      exact least ⟨bound, other, reference, deeper⟩
    obtain ⟨path, many, distinct, all⟩ := ih rest limited'
    refine ⟨id :: path, by simp [many], List.nodup_cons.mpr ⟨?_, distinct⟩, ?_⟩
    · intro member
      exact (all id member).2 reached
    · intro third member
      rcases List.mem_cons.mp member with rfl | member
      · exact ⟨bound, limited⟩
      · exact ⟨(all third member).1, fun deep => (all third member).2 (deep.shorter (by omega))⟩

/-- A chain that is longer than the store can be continued forever. -/
theorem Descends.endless (descends : bindings.Descends refers bindings.size id) (length : Nat) :
    bindings.Descends refers length id := by
  by_contra limited
  obtain ⟨path, many, distinct, bound⟩ := descends.exists_nodup limited
  have inside : path ⊆ List.range bindings.size := by
    intro other member
    obtain ⟨value, cell⟩ := Option.isSome_iff_exists.mp (bound other member).1
    exact List.mem_range.mpr (lt_size_of_lookup? cell)
  have short := (distinct.subperm inside).length_le
  rw [many, List.length_range] at short
  omega

/-- Bindings come to an end within some levels unless there is a longer chain of references. -/
theorem endsWithin_iff {levels : Nat} {term : Term} :
    bindings.endsWithin levels term = true ↔
      ∀ id ∈ term.occurrences, ¬ bindings.Descends bindings.Refers levels id := by
  induction levels generalizing term with
  | zero => simp [endsWithin_zero, Descends]
  | succ levels ih =>
    rw [endsWithin_succ]
    constructor
    · rintro ends id occurs ⟨_, other, ⟨value, cell, inside⟩, rest⟩
      exact ih.mp (ends id occurs value cell) other inside rest
    · intro short id occurs value cell
      rw [ih]
      intro other inside rest
      exact short id occurs ⟨by simp [cell], other, ⟨value, cell, inside⟩, rest⟩

/-- Bindings that come to an end do so within as many levels as there are cells. -/
theorem ends_of_endsWithin {levels : Nat} {term : Term} (ended : bindings.endsWithin levels term = true) :
    bindings.ends term = true := by
  rw [ends, endsWithin_iff]
  intro id occurs long
  exact endsWithin_iff.mp ended id occurs (long.endless levels)

end Bindings

/-! ## Resolving and evaluating -/

namespace Mirrors

open Bindings

variable {link : Link} {left right : Bindings} (mirrors : Mirrors link left right) {term : Term}
include mirrors

theorem endsWithin (levels : Nat) (covers : link.Covers term) :
    right.endsWithin levels (link.image term) = left.endsWithin levels term := by
  induction levels generalizing term with
  | zero =>
    rw [Bool.eq_iff_iff, endsWithin_zero, endsWithin_zero, Link.image, Term.occurrences_rename]
    simp only [List.mem_map, forall_exists_index, and_imp, forall_apply_eq_imp_iff₂]
    refine forall₂_congr fun id occurs => ?_
    rw [mirrors.cells id (covers.vars id occurs), Option.map_eq_none_iff]
  | succ levels ih =>
    rw [Bool.eq_iff_iff, endsWithin_succ, endsWithin_succ, Link.image, Term.occurrences_rename]
    simp only [List.mem_map, forall_exists_index, and_imp, forall_apply_eq_imp_iff₂]
    refine forall₂_congr fun id occurs => ?_
    have known := covers.vars id occurs
    rw [mirrors.cells id known]
    cases cell : left.lookup? id with
    | none => simp
    | some value =>
      simp only [Option.map_some, Option.some.injEq, forall_eq']
      rw [ih (mirrors.covered id value known cell)]

/-- Bindings come to an end in both stores or in none. -/
theorem ends (covers : link.Covers term) : right.ends (link.image term) = left.ends term := by
  rw [Bool.eq_iff_iff]
  constructor
  · intro ended
    rw [Bindings.ends, mirrors.endsWithin _ covers] at ended
    exact ends_of_endsWithin ended
  · intro ended
    rw [Bindings.ends, ← mirrors.endsWithin _ covers] at ended
    exact ends_of_endsWithin ended

theorem resolveWithin (levels : Nat) (covers : link.Covers term) :
    link.Covers (left.resolveWithin levels term) ∧
      right.resolveWithin levels (link.image term) = link.image (left.resolveWithin levels term) := by
  induction levels generalizing term with
  | zero => exact ⟨covers, rfl⟩
  | succ levels ih =>
    have each : ∀ id ∈ term.occurrences, link.Covers (left.resolveWithin (levels + 1) (.var id)) ∧
        right.resolveWithin (levels + 1) (.var (link.number id)) =
          link.image (left.resolveWithin (levels + 1) (.var id)) := by
      intro id occurs
      have known := covers.vars id occurs
      simp only [Bindings.resolveWithin, Term.subst_var, mirrors.cells id known]
      cases cell : left.lookup? id with
      | none => exact ⟨Link.covers_var.mpr known, rfl⟩
      | some value => exact ih (mirrors.covered id value known cell)
    rw [Bindings.resolveWithin, Bindings.resolveWithin]
    refine ⟨covers.subst fun id occurs => (each id occurs).1, ?_⟩
    rw [Link.image, Link.image, Term.rename, Term.rename, Term.subst_subst, Term.subst_subst]
    exact Term.subst_congr fun id occurs => (each id occurs).2

/-- Terms whose bindings come to an end are resolved alike. -/
theorem resolve (covers : link.Covers term) (ended : left.ends term = true) :
    link.Covers (left.resolve term) ∧ right.resolve (link.image term) = link.image (left.resolve term) := by
  have ended' : right.ends (link.image term) = true := by rwa [mirrors.ends covers]
  have high := resolveWithin_mono (Nat.le_max_left left.size right.size) ended
  have high' := resolveWithin_mono (Nat.le_max_right left.size right.size) ended'
  have both := mirrors.resolveWithin (max left.size right.size) covers
  rwa [high, high'] at both

theorem evalWithin (levels : Nat) (covers : link.Covers term) :
    right.evalWithin levels (link.image term) = left.evalWithin levels term := by
  induction levels generalizing term with
  | zero => rw [Bindings.evalWithin, Link.image, Arithmetic.evalWith_rename]; rfl
  | succ levels ih =>
    rw [Bindings.evalWithin, Bindings.evalWithin, Link.image, Arithmetic.evalWith_rename]
    apply Arithmetic.evalWith_congr
    intro id occurs
    have known := covers.vars id occurs
    rw [mirrors.cells id known]
    cases cell : left.lookup? id with
    | none => rfl
    | some value => exact ih (mirrors.covered id value known cell)

/-- Expressions are evaluated alike: they have the same value, or none for the same reason. -/
theorem eval (covers : link.Covers term) : right.eval (link.image term) = left.eval term := by
  have both := mirrors.evalWithin (max left.size right.size) covers
  rwa [evalWithin_eq_eval (Nat.le_max_left _ _), evalWithin_eq_eval (Nat.le_max_right _ _)] at both

end Mirrors

end HornLoops
