import Mathlib.Logic.Relation
import HornLoops.Proofs.Bindings.Solutions

/-!
# Histories of stores

Terms are unified without a look at whether a variable occurs in the other term, so a store may hold terms that contain
themselves. What keeps chains of variables finite is that of two variables the younger one is bound, and what keeps cells
from mentioning variables that were dropped is that the trail lists all that was bound. Both survive every success, every
failure and every return to a mark.
-/

namespace HornLoops.Bindings

/-! ## Chains -/

/-- A bound variable leads to what it is bound to. -/
def Dereferences (bindings : Bindings) (term next : Term) : Prop :=
  ∃ id, term = .var id ∧ bindings.lookup? id = some next

/-- How many steps a chain can still have at most. -/
def stepsLeft : Term → Nat
  | .var id => id + 1
  | _ => 0

namespace Descending

variable {bindings : Bindings} (descending : bindings.Descending)

include descending in
/-- A chain of variables goes from younger to older ones, so it has an end. -/
theorem wellFounded : WellFounded fun next term => bindings.Dereferences term next := by
  refine Subrelation.wf ?_ (measure stepsLeft).wf
  rintro next term ⟨id, rfl, bound⟩
  cases next with
  | var other => exact Nat.succ_lt_succ (descending id other bound)
  | _ => exact Nat.succ_pos id

include descending in
/-- Walking goes to the end of a chain. -/
theorem reflTransGen_walk (term : Term) : Relation.ReflTransGen bindings.Dereferences term (bindings.walk term) ∧
    ∀ next, ¬ bindings.Dereferences (bindings.walk term) next := by
  constructor
  · rw [walk]
    induction bindings.size generalizing term with
    | zero => cases term <;> exact .refl
    | succ steps ih =>
      cases term with
      | var id =>
        cases cell : bindings.lookup? id with
        | none => simpa only [follow, cell] using .refl
        | some value => simpa only [follow, cell] using .head ⟨id, rfl, cell⟩ (ih value)
      | _ => exact .refl
  · rintro next ⟨id, ending, bound⟩
    simp [descending.unbound_of_walk ending] at bound

end Descending

/-! ## Stores with a history -/

/-- The stores that operations lead to, with the stores at which the marks were taken that can still be gone back to, the
latest first. Going back to a mark gives up the later ones. Terms may be required to be over the variables of the store;
otherwise they may mention others. -/
inductive Reached (allocated : Prop) : Bindings → List Bindings → Prop
  | empty : Reached allocated .empty []
  | fresh {bindings : Bindings} {marked : List Bindings} (reached : Reached allocated bindings marked) :
      Reached allocated (bindings.reserve (bindings.size + 1)) marked
  | unify {bindings : Bindings} {marked : List Bindings} (reached : Reached allocated bindings marked) (fuel : Nat)
      (left right : Term) (below : allocated → left.Below bindings.size ∧ right.Below bindings.size) :
      Reached allocated (bindings.unify fuel left right).2 marked
  | unifyAll {bindings : Bindings} {marked : List Bindings} (reached : Reached allocated bindings marked) (fuel : Nat)
      (lefts rights : List Term) (below : allocated → bindings.AllBelow lefts ∧ bindings.AllBelow rights) :
      Reached allocated (bindings.unifyAll fuel lefts rights).2 marked
  | mark {bindings : Bindings} {marked : List Bindings} (reached : Reached allocated bindings marked) :
      Reached allocated bindings (bindings :: marked)
  | undo {bindings old : Bindings} {newer older : List Bindings}
      (reached : Reached allocated bindings (newer ++ old :: older)) :
      Reached allocated (bindings.undoTo old.mark) (old :: older)

/-- What all operations preserve. -/
structure Formed (allocated : Prop) (bindings : Bindings) : Prop where
  /-- Variables are bound to older variables only. -/
  descending : bindings.Descending
  /-- The trail lists what is bound. -/
  trailed : bindings.Trailed
  /-- If terms are over the variables of the store, its cells are so too. -/
  wellFormed : allocated → bindings.WellFormed

/-- Stores of which each has grown out of all that follow. -/
structure History (allocated : Prop) (stores : List Bindings) : Prop where
  /-- Only empty cells were filled between two of them. -/
  grown : stores.Pairwise fun new old => Grown old new
  /-- What operations preserve holds of all of them. -/
  formed : ∀ store ∈ stores, Formed allocated store

variable {allocated : Prop} {bindings after old : Bindings} {marked newer older : List Bindings}

namespace History

variable (history : History allocated (bindings :: marked))
include history

theorem head : Formed allocated bindings :=
  history.formed bindings List.mem_cons_self

theorem grow (grown : Grown bindings after) (formed : Formed allocated after) :
    History allocated (after :: marked) := by
  obtain ⟨head, tail⟩ := List.pairwise_cons.mp history.grown
  refine ⟨List.pairwise_cons.mpr ⟨fun old member => (head old member).trans grown, tail⟩, ?_⟩
  exact List.forall_mem_cons.mpr ⟨formed, (List.forall_mem_cons.mp history.formed).2⟩

theorem fill (filled : Filled bindings after) (wellFormed : allocated → after.WellFormed) :
    History allocated (after :: marked) :=
  history.grow filled.grown ⟨filled.descending, filled.trailed history.head.trailed, wellFormed⟩

theorem mark : History allocated (bindings :: bindings :: marked) := by
  refine ⟨List.pairwise_cons.mpr ⟨List.forall_mem_cons.mpr ⟨.refl _, ?_⟩, history.grown⟩, ?_⟩
  · exact (List.pairwise_cons.mp history.grown).1
  · exact List.forall_mem_cons.mpr ⟨history.head, history.formed⟩

omit history in
/-- Going back to a mark gives the store of that time. -/
theorem undo (history : History allocated (bindings :: (newer ++ old :: older))) :
    History allocated (bindings.undoTo old.mark :: old :: older) := by
  have grown : Grown old bindings := (List.pairwise_cons.mp history.grown).1 old (by simp)
  have within : (old :: older).Sublist (bindings :: (newer ++ old :: older)) :=
    (List.sublist_append_right newer _).cons bindings
  have kept : History allocated (old :: older) :=
    ⟨history.grown.sublist within, fun store member => history.formed store (within.subset member)⟩
  rw [grown.undoTo]
  exact kept.mark

end History

theorem WellFormed.unifyAll (formed : WellFormed bindings) (fuel : Nat) {lefts rights : List Term}
    (belowLefts : bindings.AllBelow lefts) (belowRights : bindings.AllBelow rights) :
    (bindings.unifyAll fuel lefts rights).2.WellFormed := by
  by_cases success : (bindings.unifyAll fuel lefts rights).1 = some true
  · exact (equated_of_unifyAll formed belowLefts belowRights (Prod.ext success rfl)).formed
  · rwa [(Filled.unifyAll formed.older fuel lefts rights).2 success]

/-- Every operation goes on with the history of a store. -/
theorem Reached.history (reached : Reached allocated bindings marked) : History allocated (bindings :: marked) := by
  induction reached with
  | empty =>
    refine ⟨List.pairwise_singleton _ _, List.forall_mem_singleton.mpr ⟨WellFormed.empty.older, ?_, fun _ => .empty⟩⟩
    simp [Trailed, lookup?, Bindings.empty]
  | fresh _ ih =>
    refine ih.grow (.reserve _ _) ⟨ih.head.descending.reserve _, ?_, fun all => (ih.head.wellFormed all).reserve _⟩
    simpa [Trailed] using ih.head.trailed
  | unify _ fuel left right below ih =>
    refine ih.fill (.unify ih.head.descending fuel left right) fun all => ?_
    exact (solved_unify (ih.head.wellFormed all) fuel (below all).1 (below all).2).1.formed
  | unifyAll _ fuel lefts rights below ih =>
    refine ih.fill (Filled.unifyAll ih.head.descending fuel lefts rights).1 fun all => ?_
    exact (ih.head.wellFormed all).unifyAll fuel (below all).1 (below all).2
  | mark _ ih => exact ih.mark
  | undo _ ih => exact ih.undo

/-- In every store that operations lead to, variables are bound to older variables only, the cells mention no variable
that the store does not have, if the terms that were unified did not, and the trail lists each bound variable once and
nothing else. So every chain of variables has an end, which is where walking arrives, also if terms contain
themselves. -/
theorem Reached.walk_ends (reached : Reached allocated bindings marked) :
    (∀ id other, bindings.lookup? id = some (.var other) → other < id) ∧
      (allocated → ∀ id value, bindings.lookup? id = some value → value.Below bindings.size) ∧
      (∀ id, bindings.trail.toList.count id = if (bindings.lookup? id).isSome then 1 else 0) ∧
      WellFounded (fun next term => bindings.Dereferences term next) ∧
      ∀ term, Relation.ReflTransGen bindings.Dereferences term (bindings.walk term) ∧
        ∀ next, ¬ bindings.Dereferences (bindings.walk term) next :=
  have formed := reached.history.head
  ⟨formed.descending, fun all => (formed.wellFormed all).below, formed.trailed, formed.descending.wellFounded,
    formed.descending.reflTransGen_walk⟩

/-- Two variables are bound to terms in which they occur, the second one through the third, after an attempt that failed
and another one that was taken back. -/
theorem Reached.walk_ends_circle :
    let nest (term : Term) : Term := .compound "s" term []
    let bindings := Bindings.empty.reserve 1 |>.reserve 2 |>.reserve 3
    let failed := (bindings.unifyAll 9 [.var 0, .int 1] [.var 2, .int 2]).2
    let tried := (failed.unify 9 (.var 2) (.atom "a")).2.undoTo failed.mark
    let circle := (tried.unifyAll 9 [.var 0, .var 1, .var 2] [nest (.var 0), .var 2, nest (.var 1)]).2
    circle.cells = #[some (nest (.var 0)), some (nest (.var 1)), some (.var 1)] ∧
      WellFounded (fun next term => circle.Dereferences term next) := by
  intro nest bindings failed tried circle
  have marked : Reached True failed [failed] :=
    .mark (.unifyAll (.fresh (.fresh (.fresh .empty))) 9 _ _ fun _ => by decide +kernel)
  have back : Reached True tried [failed] :=
    @Reached.undo True _ failed [] [] (.unify marked 9 _ _ fun _ => by decide +kernel)
  have reached : Reached True circle [failed] := .unifyAll back 9 _ _ fun _ => by decide +kernel
  exact ⟨by decide +kernel, reached.walk_ends.2.2.2.1⟩

end HornLoops.Bindings
