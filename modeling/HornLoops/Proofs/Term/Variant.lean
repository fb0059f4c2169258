import HornLoops.Machine.State
import HornLoops.Proofs.Term.Renaming
import Mathlib.Data.Set.Function
import Mathlib.Order.Interval.Set.Defs

/-!
# Variants and copies

Normal forms decide whether terms are variants: they are equal exactly if a bijection between the variables maps one
term to the other. A copy of a template is a variant of the terms that it was made from, all of them renamed alike, and
its variables are exactly those that were added for it.
-/

namespace HornLoops

namespace Term

/-- The variables of some terms. -/
def support (terms : List Term) : Set Nat := {id | ∃ term ∈ terms, id ∈ term.occurrences}

/-- Terms are variants if a bijection between their variables maps one to the other. -/
def Variant (left right : Term) : Prop :=
  ∃ number : Nat → Nat, Set.BijOn number (support [left]) (support [right]) ∧ left.rename number = right

theorem mem_support_singleton {term : Term} {id : Nat} : id ∈ support [term] ↔ id ∈ term.occurrences := by
  simp [support]

/-- A renaming that keeps variables apart is a bijection to the variables of what it gives. -/
theorem bijOn_support_rename {number : Nat → Nat} {terms : List Term} (injective : Set.InjOn number (support terms)) :
    Set.BijOn number (support terms) (support (terms.map (rename number))) := by
  refine ⟨?_, injective, ?_⟩
  · rintro id ⟨term, member, occurs⟩
    refine ⟨term.rename number, List.mem_map_of_mem member, ?_⟩
    rw [occurrences_rename]
    exact List.mem_map_of_mem occurs
  · rintro id ⟨term, member, occurs⟩
    obtain ⟨origin, memberOrigin, rfl⟩ := List.mem_map.mp member
    rw [occurrences_rename] at occurs
    obtain ⟨before, occursBefore, rfl⟩ := List.mem_map.mp occurs
    exact ⟨before, ⟨origin, memberOrigin, occursBefore⟩, rfl⟩

/-- Normal forms are equal exactly for variants. -/
theorem normalize_eq_iff_variant (left right : Term) : left.normalize = right.normalize ↔ left.Variant right := by
  constructor
  · intro same
    obtain ⟨number, injective, rfl⟩ := exists_rename_of_normalize_eq same
    refine ⟨number, bijOn_support_rename ?_, rfl⟩
    intro one occurs other occurs'
    exact injective one (mem_support_singleton.mp occurs) other (mem_support_singleton.mp occurs')
  · rintro ⟨number, bijective, rfl⟩
    refine (normalize_rename ?_).symm
    intro one occurs other occurs'
    exact bijective.injOn (mem_support_singleton.mpr occurs) (mem_support_singleton.mpr occurs')

/-- A normal form is its own normal form. -/
theorem normalize_normalize (term : Term) : term.normalize.term.normalize = term.normalize := by
  refine normalize_rename ?_
  intro one occurs other _ same
  exact (List.idxOf_inj (mem_vars.mpr occurs)).mp same

end Term

namespace Template

/-- The number that a variable of some terms has in a copy of them. -/
def copied (terms : List Term) (next : Nat) (id : Nat) : Nat := next + (Term.varsAll terms).idxOf id

/-- A copy renames all terms alike. -/
theorem instantiate_ofTerms (terms : List Term) (next : Nat) :
    (ofTerms terms).instantiate next = terms.map (Term.rename (copied terms next)) := by
  simp only [instantiate, ofTerms, List.map_map]
  refine List.map_congr_left fun term _ => ?_
  exact Term.rename_rename (next + ·) (Term.varsAll terms).idxOf term

/-- The variables of some terms are copied to as many numbers in a row, each of which is taken. -/
theorem bijOn_copied (terms : List Term) (next : Nat) :
    Set.BijOn (copied terms next) (Term.support terms) (Set.Ico next (next + (ofTerms terms).width)) := by
  refine ⟨?_, ?_, ?_⟩
  · intro id occurs
    have inside := List.idxOf_lt_length_of_mem (Term.mem_varsAll.mpr occurs)
    exact ⟨Nat.le_add_right _ _, Nat.add_lt_add_left inside next⟩
  · intro one occurs other _ same
    exact (List.idxOf_inj (Term.mem_varsAll.mpr occurs)).mp (Nat.add_left_cancel same)
  · rintro number ⟨above, below⟩
    have inside : number - next < (Term.varsAll terms).length := by
      have width : (ofTerms terms).width = (Term.varsAll terms).length := rfl
      omega
    refine ⟨(Term.varsAll terms)[number - next], Term.mem_varsAll.mp (List.getElem_mem inside), ?_⟩
    rw [copied, (Term.nodup_varsAll terms).idxOf_getElem]
    omega

end Template

/-- Normal forms tell variants: they are equal exactly if there is a bijection between the variables that maps one term
to the other, and a normal form is its own. Copying the template of some terms gives these terms under one bijection
from all their variables to the variables that are added to the store for the copy. -/
theorem variant_iff_normalize_eq_and_copyTemplate :
    (∀ left right : Term, left.normalize = right.normalize ↔ left.Variant right) ∧
    (∀ term : Term, term.normalize.term.normalize.term = term.normalize.term) ∧
    ∀ (terms : List Term) (machine : Machine),
      let template := Template.ofTerms terms
      let next := machine.bindings.size
      ∃ number : Nat → Nat, Set.BijOn number (Term.support terms) (Set.Ico next (next + template.width)) ∧
        Run.copyTemplate template machine = .ok (terms.map (Term.rename number))
          { machine with bindings := machine.bindings.reserve (next + template.width) } := by
  refine ⟨Term.normalize_eq_iff_variant, fun term => by rw [Term.normalize_normalize], fun terms machine => ?_⟩
  refine ⟨Template.copied terms machine.bindings.size, Template.bijOn_copied terms _, ?_⟩
  rw [← Template.instantiate_ofTerms]
  rfl

end HornLoops
