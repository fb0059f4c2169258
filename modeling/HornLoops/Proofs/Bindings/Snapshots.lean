import HornLoops.Proofs.Bindings.Framing
import HornLoops.Term.Variant

/-!
# Snapshots

A mark is a snapshot. Whatever is done to a store that was built up by its operations, going back to the mark gives the
store of that time, cell by cell and with the same trail. In between there may be attempts at unification that fail,
bindings of older variables to terms over younger ones, and other marks that were gone back to.
-/

namespace HornLoops.Bindings

/-! ## Courses -/

/-- What can be done to a store between a mark and the time it is gone back to. Within it other marks may be taken and
gone back to. -/
inductive Course : Bindings → Bindings → Prop
  /-- Nothing is done. -/
  | refl (bindings : Bindings) : Course bindings bindings
  /-- A variable is added. -/
  | fresh {before now : Bindings} (course : Course before now) : Course before (now.reserve (now.size + 1))
  /-- Variables are added for a copy of a template. -/
  | copy {before now : Bindings} (course : Course before now) (template : Template) :
      Course before (now.reserve (now.size + template.width))
  /-- Two terms are unified or not. -/
  | unify {before now : Bindings} (course : Course before now) (fuel : Nat) (left right : Term) :
      Course before (now.unify fuel left right).2
  /-- Two sequences of terms are unified or not. -/
  | unifyAll {before now : Bindings} (course : Course before now) (fuel : Nat) (lefts rights : List Term) :
      Course before (now.unifyAll fuel lefts rights).2
  /-- A mark is taken, and after another course it is gone back to. -/
  | attempt {before now inner : Bindings} (course : Course before now) (nested : Course now inner) :
      Course before (inner.undoTo now.mark)

/-- A course only fills empty cells and adds cells. -/
theorem Course.grown {before after : Bindings} (course : Course before after) (descending : before.Descending) :
    Grown before after ∧ after.Descending := by
  induction course with
  | refl bindings => exact ⟨.refl bindings, descending⟩
  | fresh _ ih =>
    obtain ⟨grown, descending⟩ := ih descending
    exact ⟨grown.trans (.reserve _ _), descending.reserve _⟩
  | copy _ template ih =>
    obtain ⟨grown, descending⟩ := ih descending
    exact ⟨grown.trans (.reserve _ _), descending.reserve _⟩
  | unify _ fuel left right ih =>
    obtain ⟨grown, descending⟩ := ih descending
    have filled := Filled.unify descending fuel left right
    exact ⟨grown.trans filled.grown, filled.descending⟩
  | unifyAll _ fuel lefts rights ih =>
    obtain ⟨grown, descending⟩ := ih descending
    have filled := (Filled.unifyAll descending fuel lefts rights).1
    exact ⟨grown.trans filled.grown, filled.descending⟩
  | attempt _ _ ih ihNested =>
    -- the inner course is taken back as a whole, so nothing remains of it
    obtain ⟨grown, descending⟩ := ih descending
    rw [(ihNested descending).1.undoTo]
    exact ⟨grown, descending⟩

/-! ## Stores that were built up -/

/-- What is bound after going back to a mark, whether or not it was taken from this store, was so before. -/
theorem lookup?_of_undoTo {bindings : Bindings} {mark : Mark} {id : Nat} {value : Term}
    (bound : (bindings.undoTo mark).lookup? id = some value) : bindings.lookup? id = some value := by
  simp only [lookup?, undoTo, unbindTo, ← Array.getElem?_toList, Array.toList_shrink] at bound
  rw [List.getElem?_take] at bound
  split at bound
  · rw [Array.getElem?_toList, getElem?_release] at bound
    split at bound
    · cases cell : bindings.cells[id]? <;> simp [cell] at bound
    · exact bound
  · simp at bound

theorem Descending.undoTo {bindings : Bindings} (descending : bindings.Descending) (mark : Mark) :
    (bindings.undoTo mark).Descending :=
  fun id other bound => descending id other (lookup?_of_undoTo bound)

/-- The stores that the operations build. Single variables may be bound too, as unification does it, and marks need not
be gone back to in order. -/
inductive Built : Bindings → Prop
  | empty : Built .empty
  | course {before after : Bindings} (built : Built before) (course : Course before after) : Built after
  | bind {bindings : Bindings} (built : Built bindings) {id : Nat} {value : Term}
      (unbound : bindings.lookup? id = none) (older : ∀ other, value = .var other → other < id) :
      Built (bindings.bind id value)
  | undoTo {bindings : Bindings} (built : Built bindings) (mark : Mark) : Built (bindings.undoTo mark)

theorem Built.descending {bindings : Bindings} (built : Built bindings) : bindings.Descending := by
  induction built with
  | empty => exact WellFormed.empty.older
  | course _ course ih => exact (course.grown ih).2
  | bind _ unbound older ih => exact (Filled.bind ih unbound older).descending
  | undoTo _ mark ih => exact ih.undoTo mark

/-- Going back to a mark gives the store at which it was taken, with the same cells and the same trail, whatever was done
to the store since. -/
theorem Built.undoTo_mark {bindings after : Bindings} (built : Built bindings) (course : Course bindings after) :
    after.undoTo bindings.mark = bindings :=
  (course.grown built.descending).1.undoTo

/-- The first variable, which is older than the mark, is bound to a term over two younger variables. Two attempts at
unification bind one of these before they fail, another is made under a mark of its own, and the last one binds the
other variable. -/
theorem Built.undoTo_mark_younger :
    let bindings := Bindings.empty.reserve 1
    let pair (left right : Term) : Term := .compound "f" left [right]
    let bound := ((bindings.reserve 2).reserve 3 |>.unify 9 (.var 0) (pair (.var 1) (.var 2))).2
    let failed := (bound.unify 9 (pair (.var 1) (.int 1)) (pair (.atom "a") (.int 2))).2
    let clashed := (failed.unifyAll 9 [.var 1, .var 0] [.atom "a", .atom "b"]).2
    let inner := (clashed.unify 9 (.var 1) (.atom "c")).2
    let last := ((inner.undoTo clashed.mark).unify 9 (.var 2) (.int 1)).2
    last.trail = #[0, 2] ∧ last.undoTo bindings.mark = bindings := by
  refine ⟨by decide +kernel, Built.undoTo_mark (.course .empty (.fresh (.refl _))) ?_⟩
  exact .unify (.attempt (.unifyAll (.unify (.unify (.fresh (.fresh (.refl _))) _ _ _) _ _ _) _ _ _)
    (.unify (.refl _) _ _ _)) _ _ _

end HornLoops.Bindings
