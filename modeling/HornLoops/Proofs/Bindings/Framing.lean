import HornLoops.Proofs.Bindings.MostGeneral

/-!
# Stores that can be gone back to

Going back to a mark gives the store of that time, provided that since then nothing but empty cells were filled. For
this it is enough that variables are bound to older variables only: a chain of variables then ends in an unbound one or
in a term, so unification never fills a cell twice. Nothing need be known about the terms that are unified, which may
even mention variables that the store does not have.
-/

namespace HornLoops.Bindings

/-! ## What is kept -/

/-- A store keeps an older one if the older one's variables are as they were and no binding was added. Variables may
have been added. -/
structure Kept (old new : Bindings) : Prop where
  /-- No variable was dropped. -/
  size : old.size ≤ new.size
  /-- The trail is the same. -/
  trail : new.trail = old.trail
  /-- The cells of the older store are the same. -/
  cells : ∀ id < old.size, new.cells[id]? = old.cells[id]?

namespace Kept

theorem refl (bindings : Bindings) : Kept bindings bindings := ⟨Nat.le_refl _, rfl, fun _ _ => rfl⟩

theorem trans {first second third : Bindings} (left : Kept first second) (right : Kept second third) :
    Kept first third where
  size := Nat.le_trans left.size right.size
  trail := right.trail.trans left.trail
  cells id inside := (right.cells id (Nat.lt_of_lt_of_le inside left.size)).trans (left.cells id inside)

theorem reserve (bindings : Bindings) (size : Nat) : Kept bindings (bindings.reserve size) where
  size := (Grown.reserve bindings size).1
  trail := rfl
  cells id inside := by
    have inside' : id < bindings.cells.size := inside
    simp [Bindings.reserve, Array.getElem?_append_left inside']

theorem grown {old new : Bindings} (kept : Kept old new) : Grown old new := by
  refine ⟨kept.size, [], by simp [kept.trail], fun id inside => ?_⟩
  simp only [List.not_mem_nil, if_false, lookup?, kept.cells id inside]

end Kept

/-! ## Unification -/

/-- The trail lists each bound variable once, and nothing else. -/
def Trailed (bindings : Bindings) : Prop :=
  ∀ id, bindings.trail.toList.count id = if (bindings.lookup? id).isSome then 1 else 0

/-- A store that came out of another one by filling empty cells. -/
structure Filled (before after : Bindings) : Prop where
  /-- Only empty cells were filled. -/
  grown : Grown before after
  /-- Variables are bound to older variables only. -/
  descending : after.Descending
  /-- No variable was added. -/
  size : after.size = before.size
  /-- The cells that were filled are on the trail. -/
  trailed : before.Trailed → after.Trailed

namespace Filled

theorem refl {bindings : Bindings} (descending : bindings.Descending) : Filled bindings bindings :=
  ⟨.refl _, descending, rfl, id⟩

theorem trans {first second third : Bindings} (left : Filled first second) (right : Filled second third) :
    Filled first third :=
  ⟨left.grown.trans right.grown, right.descending, right.size.trans left.size, right.trailed ∘ left.trailed⟩

/-- Binding an unbound variable fills its cell, or does nothing if the variable is not in the store. -/
theorem bind {bindings : Bindings} (descending : bindings.Descending) {id : Nat} {value : Term}
    (unbound : bindings.lookup? id = none) (older : ∀ other, value = .var other → other < id) :
    Filled bindings (bindings.bind id value) := by
  by_cases inside : id < bindings.size
  · refine ⟨.bind inside unbound value, descending.bind older, size_bind .., fun trailed other => ?_⟩
    have before := trailed other
    rw [trail_bind inside, lookup?_bind inside, Array.toList_push, List.count_append, before]
    rcases eq_or_ne other id with rfl | differ
    · simp [unbound]
    · simp [differ, differ.symm]
  · have nothing : bindings.bind id value = bindings := if_neg inside
    rw [nothing]
    exact .refl descending

end Filled

variable {bindings : Bindings} (descending : bindings.Descending)

/-- Unification fills empty cells, whatever the terms are. -/
theorem Filled.maintained (before : Bindings) : Maintained (Filled before) fun _ => True where
  walk _ _ := trivial
  args _ _ _ := trivial
  bind filled _ walked _ older :=
    filled.trans (.bind filled.descending (filled.descending.unbound_of_walk walked) older)

include descending in
theorem Filled.unifyPairs (fuel : Nat) (pairs : List (Term × Term)) :
    Filled bindings (unifyPairs fuel pairs bindings).2 :=
  (Filled.maintained bindings).unifyPairs fuel (.refl descending) fun _ _ => ⟨trivial, trivial⟩

include descending in
/-- An attempt that fills empty cells still does so when it is taken back, and leaves the store as it was unless it
succeeds. -/
theorem Filled.takingBack {attempt : Bindings → Attempt} (filled : Filled bindings (attempt bindings).2) :
    Filled bindings (bindings.takingBack attempt).2 ∧
      ((bindings.takingBack attempt).1 ≠ some true → (bindings.takingBack attempt).2 = bindings) := by
  rw [takingBack_eq filled.grown filled.size]
  by_cases success : (attempt bindings).1 = some true
  · rw [if_pos success]
    exact ⟨filled, fun failure => absurd success failure⟩
  · rw [if_neg success]
    exact ⟨.refl descending, fun _ => rfl⟩

include descending in
theorem Filled.unify (fuel : Nat) (left right : Term) : Filled bindings (bindings.unify fuel left right).2 :=
  (Filled.takingBack descending (.unifyPairs descending fuel [(left, right)])).1

include descending in
theorem Filled.unifyEach (fuel : Nat) (lefts rights : List Term) :
    Filled bindings (unifyEach fuel lefts rights bindings).2 := by
  induction lefts generalizing bindings rights with
  | nil => exact .refl descending
  | cons left lefts ih =>
    match rights with
    | [] => exact .refl descending
    | right :: rights =>
      have filled := Filled.unify descending fuel left right
      rw [Bindings.unifyEach]
      rcases result : bindings.unify fuel left right with ⟨outcome, after⟩
      rw [result] at filled
      cases outcome with
      | none => exact filled
      | some unified =>
        cases unified with
        | true => exact filled.trans (ih filled.descending rights)
        | false => exact filled

include descending in
/-- Unifying sequences fills empty cells, and leaves the store as it was unless it succeeds. -/
theorem Filled.unifyAll (fuel : Nat) (lefts rights : List Term) :
    Filled bindings (bindings.unifyAll fuel lefts rights).2 ∧
      ((bindings.unifyAll fuel lefts rights).1 ≠ some true →
        (bindings.unifyAll fuel lefts rights).2 = bindings) := by
  rw [Bindings.unifyAll]
  split
  · exact Filled.takingBack descending (.unifyEach descending fuel lefts rights)
  · exact ⟨.refl descending, fun _ => rfl⟩

end HornLoops.Bindings
