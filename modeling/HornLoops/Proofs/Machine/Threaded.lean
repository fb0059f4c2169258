import HornLoops.Machine.Solve
import HornLoops.Proofs.Bindings.Reflection
import HornLoops.Proofs.Loop.Faults

/-!
# Loops that are reached, in stores that mirror each other

The iterators of a loop that is reached while running may be spread over variables, which are looked up along the
branches of the conjunction. As with expressions, stores of different sizes make no difference: more levels of bindings
than there are variables do not give a conjunction another reading. So a loop has the same iterators and the same
parameters in stores that mirror each other, up to the link, or is refused for the same reason.
-/

namespace HornLoops

/-! ## Looking up conjunctions -/

namespace Term

/-- The variables that stand for whole goals of a conjunction. -/
def goalVars : Term → List Nat
  | .var id => [id]
  | .compound name left [right] => if name = "," then goalVars left ++ goalVars right else []
  | _ => []

theorem mem_occurrences_of_goalVars {term : Term} {id : Nat} (member : id ∈ term.goalVars) : id ∈ term.occurrences := by
  fun_induction goalVars term with
  | case1 other => simpa using member
  | case2 left right ihLeft ihRight =>
    simp only [occurrences_compound, List.flatMap_singleton, List.mem_append]
    rcases List.mem_append.mp member with member | member
    · exact .inl (ihLeft member)
    · exact .inr (ihRight member)
  | case3 => simp at member
  | case4 => simp at member

theorem mapGoalVars_var (term : Term) : term.mapGoalVars .var = term := by
  fun_induction mapGoalVars .var term with
  | case1 id => rfl
  | case2 left right ihLeft ihRight => rw [ihLeft, ihRight]; rfl
  | case3 => rfl
  | case4 => rfl

end Term

/-- What a term is read as in a specification: as one of the iterators, and as the last of them. -/
abbrev Readings := Except LoopFault LoopIterator × Except LoopFault (List LoopIterator)

namespace Readings

/-- What variables are read as. -/
def unknown : Readings := (.error .unknownIterator, .error .unknownIterator)

/-- What a term is read as. -/
def ofTerm (term : Term) : Readings :=
  ((LoopIterator.ofTerm term).mapError LoopError.fault,
    (term.conjuncts.mapM LoopIterator.ofTerm).mapError LoopError.fault)

/-- What a conjunction is read as. -/
def both (first second : Readings) : Readings :=
  (.error .unknownIterator, do
    let iterator ← first.1
    let iterators ← second.2
    return iterator :: iterators)

/-- What a term is read as if this is known of the variables that stand for goals. -/
def ofTermWith (known : Nat → Readings) : Term → Readings
  | .var id => known id
  | .compound name left [right] =>
    if name = "," then both (ofTermWith known left) (ofTermWith known right) else ofTerm (.compound name left [right])
  | term => ofTerm term

theorem ofTerm_both (left right : Term) : ofTerm (.both left right) = both (ofTerm left) (ofTerm right) := by
  refine Prod.ext rfl ?_
  show (Except.mapError LoopError.fault ((Term.both left right).conjuncts.mapM LoopIterator.ofTerm)) = _
  have split : (Term.both left right).conjuncts = left :: right.conjuncts := by simp [Term.both, Term.binary, Term.conjuncts]
  rw [split, List.mapM_cons]
  simp only [both, ofTerm]
  cases LoopIterator.ofTerm left with
  | error error => rfl
  | ok iterator =>
    cases right.conjuncts.mapM LoopIterator.ofTerm with
    | error error => rfl
    | ok iterators => rfl

theorem ofTerm_mapGoalVars (replace : Nat → Term) (term : Term) :
    ofTerm (term.mapGoalVars replace) = ofTermWith (fun id => ofTerm (replace id)) term := by
  fun_induction Term.mapGoalVars replace term with
  | case1 id => rfl
  | case2 left right ihLeft ihRight => rw [ofTerm_both, ihLeft, ihRight, ofTermWith, if_pos rfl]
  | case3 name left right other => rw [ofTermWith, if_neg other]
  | case4 term notVar notPair =>
    unfold ofTermWith
    split
    · exact absurd rfl (notVar _)
    · exact absurd rfl (notPair _ _ _)
    · rfl

/-- What a term is read as stays the same if more is known of variables. -/
theorem ofTermWith_eq_of_ne {known known' : Nat → Readings} {term : Term}
    (same : ∀ id, known id ≠ unknown → known' id = known id) (read : ofTermWith known term ≠ unknown) :
    ofTermWith known' term = ofTermWith known term := by
  fun_induction ofTermWith known term with
  | case1 id => exact same id read
  | case2 left right ihLeft ihRight =>
    rw [ofTermWith, if_pos rfl]
    have first : ofTermWith known left ≠ unknown := by
      intro missing
      rw [missing] at read
      exact read rfl
    rw [ihLeft first]
    match here : (ofTermWith known left).1 with
    | .error fault => simp only [both, here]; rfl
    | .ok iterator =>
      have second : ofTermWith known right ≠ unknown := by
        intro missing
        rw [missing] at read
        exact read (by simp only [both, here]; rfl)
      rw [ihRight second]
  | case3 name left right other => rw [ofTermWith, if_neg other]
  | case4 term notVar notPair =>
    unfold ofTermWith
    split
    · exact absurd rfl (notVar _)
    · exact absurd rfl (notPair _ _ _)
    · rfl

end Readings

namespace Bindings

open Readings

theorem ofTerm_conjunctionWithin_eq_found (bindings : Bindings) (levels : Nat) (term : Term) :
    ofTerm (bindings.conjunctionWithin levels term) = ofTermWith (bindings.found unknown ofTermWith levels) term := by
  induction levels generalizing term with
  | zero => rw [conjunctionWithin, ← Term.mapGoalVars_var term, ofTerm_mapGoalVars, Term.mapGoalVars_var]; rfl
  | succ levels ih =>
    rw [conjunctionWithin, ofTerm_mapGoalVars]
    congr 1
    funext id
    cases cell : bindings.lookup? id with
    | none => simp only [found, cell]; rfl
    | some value => simp only [found, cell, ih value]

/-- More levels than there are variables do not give a specification another reading. -/
theorem ofTerm_conjunctionWithin {bindings : Bindings} {levels : Nat} (enough : bindings.size ≤ levels) (term : Term) :
    ofTerm (bindings.conjunctionWithin levels term) = ofTerm (bindings.conjunction term) := by
  rw [conjunction, ofTerm_conjunctionWithin_eq_found, ofTerm_conjunctionWithin_eq_found]
  congr 1
  refine found_eq_of_size_le ?_ enough
  exact fun _ _ _ => ofTermWith_eq_of_ne

end Bindings

/-- Terms with the same reading are the same specification, or none for the same reason. -/
theorem LoopSpec.ofTerm_of_readings {term term' : Term} (same : Readings.ofTerm term = Readings.ofTerm term') :
    (∃ spec, ofTerm term = .ok spec ∧ ofTerm term' = .ok spec) ∨
      ∃ error error', ofTerm term = .error error ∧ ofTerm term' = .error error' ∧ error'.fault = error.fault := by
  have same := congrArg Prod.snd same
  simp only [Readings.ofTerm] at same
  rw [ofTerm, ofTerm]
  cases here : term.conjuncts.mapM LoopIterator.ofTerm with
  | ok iterators =>
    cases there : term'.conjuncts.mapM LoopIterator.ofTerm with
    | ok iterators' =>
      rw [here, there] at same
      obtain rfl := Except.ok.inj same
      exact .inl ⟨_, rfl, rfl⟩
    | error error =>
      rw [here, there] at same
      contradiction
  | error error =>
    cases there : term'.conjuncts.mapM LoopIterator.ofTerm with
    | ok iterators =>
      rw [here, there] at same
      contradiction
    | error error' =>
      rw [here, there] at same
      exact .inr ⟨error, error', rfl, rfl, (Except.error.inj same).symm⟩

/-! ## Loops -/

/-- Goals are put in place of variables alike. -/
theorem Link.mapGoalVars_image {link : Link} {term : Term} {replace replace' : Nat → Term} (covers : link.Covers term)
    (values : ∀ id ∈ term.goalVars, link.Covers (replace id) ∧ replace' (link.number id) = link.image (replace id)) :
    link.Covers (term.mapGoalVars replace) ∧
      (link.image term).mapGoalVars replace' = link.image (term.mapGoalVars replace) := by
  fun_induction Term.mapGoalVars replace term with
  | case1 id => simpa [Term.goalVars, Term.mapGoalVars] using values
  | case2 left right ihLeft ihRight =>
    simp only [Term.goalVars, if_true, List.mem_append] at values
    simp only [covers_compound, List.forall_mem_singleton] at covers
    have first := ihLeft covers.2.1 fun id member => values id (.inl member)
    have second := ihRight covers.2.2 fun id member => values id (.inr member)
    refine ⟨covers_compound.mpr ⟨covers.1, first.1, by simpa using second.1⟩, ?_⟩
    simp [Term.mapGoalVars, Term.both, Term.binary, first.2, second.2]
  | case3 name left right other => exact ⟨covers, by simp [Term.mapGoalVars, other]⟩
  | case4 term notVar notPair =>
    refine ⟨covers, ?_⟩
    cases term with
    | var id => exact absurd rfl (notVar id)
    | compound name first rest =>
      rcases rest with _ | ⟨second, _ | ⟨third, rest⟩⟩
      · rfl
      · exact absurd rfl (notPair name first second)
      · simp [Term.mapGoalVars]
    | _ => rfl

namespace Mirrors

open Bindings

variable {link : Link} {left right : Bindings} (mirrors : Mirrors link left right) {specs body : Term}
include mirrors

theorem conjunctionWithin (levels : Nat) (covers : link.Covers specs) :
    link.Covers (left.conjunctionWithin levels specs) ∧
      right.conjunctionWithin levels (link.image specs) = link.image (left.conjunctionWithin levels specs) := by
  induction levels generalizing specs with
  | zero => exact ⟨covers, rfl⟩
  | succ levels ih =>
    refine Link.mapGoalVars_image covers fun id member => ?_
    have known := covers.vars id (Term.mem_occurrences_of_goalVars member)
    rw [mirrors.cells id known]
    cases cell : left.lookup? id with
    | none => exact ⟨Link.covers_var.mpr known, rfl⟩
    | some value => exact ih (mirrors.covered id value known cell)

/-- Iterators are found alike: they are the same up to the link, or there are none for the same reason. -/
theorem ofTerm_conjunction (covers : link.Covers specs) :
    (∃ spec, LoopSpec.ofTerm (left.conjunction specs) = .ok spec ∧
        LoopSpec.ofTerm (right.conjunction (link.image specs)) = .ok (spec.rename link.number)) ∨
      ∃ error error', LoopSpec.ofTerm (left.conjunction specs) = .error error ∧
        LoopSpec.ofTerm (right.conjunction (link.image specs)) = .error error' ∧ error'.fault = error.fault := by
  have here := LoopSpec.ofTerm_of_readings (ofTerm_conjunctionWithin (Nat.le_max_left left.size right.size) specs)
  have there := LoopSpec.ofTerm_of_readings
    (ofTerm_conjunctionWithin (Nat.le_max_right left.size right.size) (link.image specs))
  rw [(mirrors.conjunctionWithin _ covers).2] at there
  rcases here with ⟨spec, read, found⟩ | ⟨error, error', read, found, same⟩
  · have read' := LoopSpec.ofTerm_rename link.number read
    rcases there with ⟨spec', found', last⟩ | ⟨error, error', refused, last, same⟩
    · rw [Link.image, read', Except.ok.injEq] at found'
      exact .inl ⟨spec, found, found' ▸ last⟩
    · rw [Link.image, read'] at refused
      contradiction
  · obtain ⟨refused, read', same'⟩ := LoopSpec.fault_ofTerm_rename link.number read
    rcases there with ⟨spec', found', last⟩ | ⟨error'', last', read'', last, same''⟩
    · rw [Link.image, read'] at found'
      contradiction
    · rw [Link.image, read', Except.error.injEq] at read''
      exact .inr ⟨error', last', found, last, by rw [same'', ← read'', same', same]⟩

/-- Variables are bound alike. -/
theorem walk_var_eq_iff {id : Nat} (known : link.known id) :
    right.walk (.var (link.number id)) = .var (link.number id) ↔ left.walk (.var id) = .var id := by
  have walk := mirrors.walk (Link.covers_var.mpr known)
  rw [Link.image_var] at walk
  rw [walk.2]
  constructor
  · intro same
    exact Link.eq_of_image_eq walk.1 (Link.covers_var.mpr known) same
  · intro same
    rw [same]
    rfl

/-- The variables of a body that are bound are the same, up to the link. -/
theorem filter_bound (covers : link.Covers body) :
    (∀ id ∈ body.vars.filter (fun id => decide (left.walk (.var id) ≠ .var id)), id ∈ body.occurrences) ∧
      (link.image body).vars.filter (fun id => decide (right.walk (.var id) ≠ .var id)) =
        (body.vars.filter fun id => decide (left.walk (.var id) ≠ .var id)).map link.number := by
  refine ⟨fun id member => Term.mem_vars.mp (List.mem_filter.mp member).1, ?_⟩
  rw [Link.image, Term.vars_rename (Link.injectiveOn_occurrences covers), List.filter_map]
  congr 1
  apply List.filter_congr
  intro id member
  have known := covers.vars id (Term.mem_vars.mp member)
  simp only [Function.comp_apply, ne_eq, mirrors.walk_var_eq_iff known]

/-- A loop that is reached has the same iterators and parameters on both sides, up to the link, or none. -/
theorem threaded (ordinary : Ordinary link.allowed) (covers : link.Covers specs) (coversBody : link.Covers body) :
    (∃ term, Machine.threaded left specs body = .ok term ∧ link.Covers term ∧
        Machine.threaded right (link.image specs) (link.image body) = .ok (link.image term)) ∨
      ∃ error error', Machine.threaded left specs body = .error error ∧
        Machine.threaded right (link.image specs) (link.image body) = .error error' ∧ error'.fault = error.fault := by
  rw [Machine.threaded, Machine.threaded]
  rcases mirrors.ofTerm_conjunction covers with ⟨spec, read, read'⟩ | ⟨error, error', read, read', same⟩
  · rw [read, read']
    left
    have whole := (mirrors.conjunctionWithin left.size covers).1
    have known : ∀ id ∈ spec.occurrences ++ body.occurrences, link.known id := by
      intro id member
      rcases List.mem_append.mp member with member | member
      · exact whole.vars id (LoopSpec.mem_occurrences_of_ofTerm read member)
      · exact coversBody.vars id member
    have injective : InjectiveOn link.number (spec.occurrences ++ body.occurrences) := fun one inside other inside' =>
      Link.eq_of_number_eq (known one inside) (known other inside')
    have boundAlike := mirrors.filter_bound coversBody
    generalize body.vars.filter (fun id => decide (left.walk (.var id) ≠ .var id)) = bound at boundAlike ⊢
    obtain ⟨subset, same⟩ := boundAlike
    rw [same]
    have around : ∀ id ∈ spec.occurrences ++ body.occurrences, link.number id ∈ bound.map link.number ↔ id ∈ bound :=
      fun id member => injective.mem_map member fun other inside => List.mem_append_right _ (subset other inside)
    have parts : ∀ id ∈ spec.declared ++ spec.shared body bound, id ∈ spec.occurrences ++ body.occurrences := by
      intro id member
      rcases List.mem_append.mp member with member | member
      · exact List.mem_append_left _ (LoopSpec.mem_occurrences_of_declared member)
      · exact LoopSpec.mem_occurrences_of_shared member
    have params : (spec.rename link.number).declared.extend
        ((spec.rename link.number).shared (link.image body) (bound.map link.number)) =
        (spec.declared.extend (spec.shared body bound)).map link.number := by
      rw [VarSet.map_extend (injective.mono parts), Link.image, LoopSpec.shared_rename injective around,
        LoopSpec.declared_rename (injective.mono fun _ => List.mem_append_left _)]
    refine ⟨_, rfl, ⟨?_, ?_⟩, ?_⟩
    · intro id occurs
      rw [LoopSpec.occurrences_toTerm] at occurs
      rcases LoopSpec.mem_occurrences_of_withParams occurs with shared | own
      · exact known id (parts id (by simpa using shared))
      · exact known id (List.mem_append_left _ own)
    · refine Term.named_conjunction ordinary fun goal member => ?_
      obtain ⟨iterator, inside, rfl⟩ := List.mem_map.mp member
      exact LoopSpec.named_withParams ordinary (LoopSpec.named_of_ofTerm ordinary read whole.names) _ iterator inside
    · show Except.ok _ = Except.ok _
      rw [params, LoopSpec.withParams_rename, LoopSpec.toTerm_rename]
      rfl
  · rw [read, read']
    exact .inr ⟨error, error', rfl, rfl, same⟩

end Mirrors

end HornLoops
