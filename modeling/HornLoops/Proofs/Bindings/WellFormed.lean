import HornLoops.Bindings.Unify
import HornLoops.Proofs.Term.Substitution

/-!
# Well-formed stores

A store is well formed if variables are bound only to older variables, if the terms in its cells mention only
variables that it has, and if its trail lists exactly the bound variables. In such a store chains of
variables end, also where terms contain themselves.

A store grows out of another one by adding cells and by binding variables that were unbound. Going back to a
mark undoes any growth since.
-/

namespace HornLoops.Bindings

/-! ## Cells -/

variable {bindings old new : Bindings} {id : Nat}

/-- The cells of a store are what its variables are bound to. -/
theorem getElem?_cells (inside : id < bindings.size) : bindings.cells[id]? = some (bindings.lookup? id) := by
  have inside' : id < bindings.cells.size := inside
  simp [lookup?, inside']

/-- Variables that are not in the store are unbound. -/
theorem lookup?_eq_none_of_size_le (outside : bindings.size ≤ id) : bindings.lookup? id = none := by
  have outside' : bindings.cells.size ≤ id := outside
  simp [lookup?, Array.getElem?_eq_none outside']

/-- Bound variables are in the store. -/
theorem lt_size_of_lookup? {value : Term} (bound : bindings.lookup? id = some value) : id < bindings.size := by
  apply Nat.lt_of_not_le
  intro outside
  rw [lookup?_eq_none_of_size_le outside] at bound
  contradiction

@[simp] theorem size_empty : empty.size = 0 := rfl

@[simp] theorem size_reserve (bindings : Bindings) (size : Nat) :
    (bindings.reserve size).size = max bindings.size size := by
  simp only [Bindings.size, reserve, Array.size_append, Array.size_replicate]
  omega

@[simp] theorem trail_reserve (bindings : Bindings) (size : Nat) :
    (bindings.reserve size).trail = bindings.trail := rfl

/-- Added variables are unbound. -/
@[simp] theorem lookup?_reserve (bindings : Bindings) (size id : Nat) :
    (bindings.reserve size).lookup? id = bindings.lookup? id := by
  by_cases old : id < bindings.cells.size
  · simp [lookup?, reserve, Array.getElem?_append_left old]
  · have none : bindings.lookup? id = none := lookup?_eq_none_of_size_le (Nat.le_of_not_lt old)
    rw [none]
    simp only [lookup?, reserve, Array.getElem?_append_right (Nat.le_of_not_lt old),
      Array.getElem?_replicate]
    split <;> rfl

@[simp] theorem size_bind (bindings : Bindings) (id : Nat) (value : Term) :
    (bindings.bind id value).size = bindings.size := by
  unfold bind Bindings.size
  split <;> simp

/-- Binding fills one cell. -/
theorem lookup?_bind (inside : id < bindings.size) (value : Term) (other : Nat) :
    (bindings.bind id value).lookup? other =
      if other = id then some value else bindings.lookup? other := by
  have inside' : id < bindings.cells.size := inside
  simp only [bind, if_pos inside', lookup?, Array.getElem?_setIfInBounds]
  by_cases same : other = id
  · subst same
    simp
  · simp [same, Ne.symm same]

/-- What is bound after a binding is its variable, or was bound before. -/
theorem lookup?_of_bind {value found : Term} {other : Nat} (bound : (bindings.bind id value).lookup? other = some found) :
    other = id ∧ value = found ∨ bindings.lookup? other = some found := by
  by_cases inside : id < bindings.size
  · rw [lookup?_bind inside] at bound
    by_cases same : other = id
    · exact .inl ⟨same, by simpa [same] using bound⟩
    · exact .inr (by simpa [same] using bound)
  · have nothing : bindings.bind id value = bindings := if_neg inside
    exact .inr (nothing ▸ bound)

theorem trail_bind (inside : id < bindings.size) (value : Term) :
    (bindings.bind id value).trail = bindings.trail.push id := by
  have inside' : id < bindings.cells.size := inside
  simp [bind, inside']

/-- Stores are equal if they have the same size, bind the same variables to the same terms and did so in the
same order. -/
theorem ext_lookup? {left right : Bindings} (size : left.size = right.size)
    (lookup : ∀ id < left.size, left.lookup? id = right.lookup? id)
    (trail : left.trail = right.trail) : left = right := by
  have cells : left.cells = right.cells := by
    apply Array.ext_getElem?
    intro id
    by_cases inside : id < left.size
    · rw [getElem?_cells inside, getElem?_cells (size ▸ inside), lookup id inside]
    · have outside : left.cells.size ≤ id := Nat.le_of_not_lt inside
      have outside' : right.cells.size ≤ id := size.symm.trans_le outside
      rw [Array.getElem?_eq_none outside, Array.getElem?_eq_none outside']
  cases left
  cases right
  simp_all

/-! ## Growth -/

/-- A store has grown out of an older one if it has more cells and longer trail, and if a cell of the older store
is as it was unless it was empty and its variable is on the trail since. -/
def Grown (old new : Bindings) : Prop :=
  old.size ≤ new.size ∧ ∃ since : List Nat, new.trail.toList = old.trail.toList ++ since ∧
    ∀ id < old.size,
      if id ∈ since then old.lookup? id = none else new.lookup? id = old.lookup? id

namespace Grown

/-- No growth is growth. -/
theorem refl (bindings : Bindings) : Grown bindings bindings :=
  ⟨Nat.le_refl _, [], by simp, by simp⟩

/-- Growth after growth is growth. -/
theorem trans {first second third : Bindings} (left : Grown first second)
    (right : Grown second third) : Grown first third := by
  obtain ⟨size, since, trail, cells⟩ := left
  obtain ⟨size', since', trail', cells'⟩ := right
  refine ⟨Nat.le_trans size size', since ++ since', by simp [trail, trail'], ?_⟩
  intro id inside
  have now := cells id inside
  have later := cells' id (Nat.lt_of_lt_of_le inside size)
  by_cases early : id ∈ since
  · simpa [early] using now
  · by_cases late : id ∈ since' <;> simp_all

/-- Adding cells is growth. -/
theorem reserve (bindings : Bindings) (size : Nat) : Grown bindings (bindings.reserve size) :=
  ⟨by simp only [size_reserve]; omega, [], by simp, by simp⟩

/-- Binding an unbound variable is growth. -/
theorem bind {bindings : Bindings} {id : Nat} (inside : id < bindings.size)
    (unbound : bindings.lookup? id = none) (value : Term) :
    Grown bindings (bindings.bind id value) := by
  refine ⟨by simp, [id], by simp [trail_bind inside], ?_⟩
  intro other _
  rw [lookup?_bind inside]
  by_cases same : other = id <;> simp [same, unbound]

/-- Bound variables stay as they are. -/
theorem lookup?_eq {old new : Bindings} (grown : Grown old new) {id : Nat} {value : Term}
    (bound : old.lookup? id = some value) : new.lookup? id = some value := by
  obtain ⟨_, since, _, cells⟩ := grown
  have cell := cells id (lt_size_of_lookup? bound)
  by_cases changed : id ∈ since
  · simp_all
  · simpa [changed, bound] using cell

end Grown

/-- Emptying cells leaves all others as they are. -/
theorem getElem?_release (cells : Array (Option Term)) (ids : Array Nat) (id : Nat) :
    (release cells ids)[id]? = if id ∈ ids.toList then cells[id]?.map fun _ => none else cells[id]? := by
  rw [release, ← Array.foldl_toList]
  induction ids.toList generalizing cells with
  | nil => simp
  | cons head tail ih =>
    rw [List.foldl_cons, ih, Array.getElem?_setIfInBounds]
    by_cases first : id = head
    · subst first
      by_cases inside : id < cells.size
      · simp [inside]
      · simp [inside]
    · simp [first, Ne.symm first]

theorem size_release (cells : Array (Option Term)) (ids : Array Nat) :
    (release cells ids).size = cells.size := by
  rw [release, ← Array.foldl_toList]
  induction ids.toList generalizing cells with
  | nil => rfl
  | cons head tail ih => rw [List.foldl_cons, ih, Array.size_setIfInBounds]

/-- Unbinding what was bound since a mark makes the variables of that time as they were. -/
theorem Grown.unbindTo (grown : Grown old new) :
    (new.unbindTo old.mark).trail = old.trail ∧ (new.unbindTo old.mark).size = new.size ∧
      ∀ id < old.size, (new.unbindTo old.mark).lookup? id = old.lookup? id := by
  obtain ⟨size, since, trail, cells⟩ := grown
  have same : (new.trail.extract old.mark.trail).toList = since := by
    have length := congrArg List.length trail
    simp only [List.length_append, Array.length_toList] at length
    have all : since.length ≤ new.trail.size - old.trail.size := by omega
    simp [mark, trail, List.take_of_length_le all]
  refine ⟨?_, ?_, ?_⟩
  · apply Array.toList_inj.mp
    simp [Bindings.unbindTo, mark, trail]
  · simp only [Bindings.unbindTo, Bindings.size, size_release]
  · intro id inside
    have inside' : id < new.size := Nat.lt_of_lt_of_le inside size
    have cell := cells id inside
    rw [lookup?, Bindings.unbindTo, getElem?_release, same, getElem?_cells inside']
    by_cases changed : id ∈ since
    · rw [if_pos changed] at cell
      simp [changed, cell]
    · rw [if_neg changed] at cell
      simp [changed, cell]

/-- Going back to the mark of an older store gives that store. -/
theorem Grown.undoTo (grown : Grown old new) : new.undoTo old.mark = old := by
  obtain ⟨trail, size, cells⟩ := grown.unbindTo
  have shorter : old.cells.size ≤ (new.unbindTo old.mark).cells.size :=
    grown.1.trans_eq size.symm
  apply ext_lookup?
  · simp only [Bindings.undoTo, Bindings.size, mark, Array.size_shrink] at *
    omega
  · intro id inside
    have inside' : id < old.size := by
      simp only [Bindings.undoTo, Bindings.size, mark, Array.size_shrink] at *
      omega
    rw [← cells id inside']
    have kept : id < old.mark.cells := inside'
    simp only [Bindings.undoTo, lookup?, ← Array.getElem?_toList, Array.toList_shrink]
    rw [List.getElem?_take_of_lt kept]
  · simpa [Bindings.undoTo] using trail

/-- Without new cells, unbinding is enough to go back. -/
theorem Grown.unbindTo_eq (grown : Grown old new) (same : new.size = old.size) : new.unbindTo old.mark = old := by
  obtain ⟨trail, size, cells⟩ := grown.unbindTo
  exact ext_lookup? (size.trans same)
    (fun id inside => cells id (by rw [size, same] at inside; exact inside)) trail

/-! ## Well-formed stores -/

/-- Variables are bound to older variables only. -/
def Descending (bindings : Bindings) : Prop :=
  ∀ id other, bindings.lookup? id = some (.var other) → other < id

theorem Descending.reserve (descending : bindings.Descending) (size : Nat) : (bindings.reserve size).Descending :=
  fun id other bound => descending id other (by simpa using bound)

theorem Descending.bind (descending : bindings.Descending) {value : Term}
    (older : ∀ other, value = .var other → other < id) : (bindings.bind id value).Descending := by
  intro start other bound
  rcases lookup?_of_bind bound with ⟨rfl, same⟩ | before
  · exact older other same
  · exact descending start other before

/-- The shape of the stores that unification builds. -/
structure WellFormed (bindings : Bindings) : Prop where
  /-- A variable is bound to a variable only if that one is older. -/
  older : ∀ id other, bindings.lookup? id = some (.var other) → other < id
  /-- Cells mention variables of the store only. -/
  below : ∀ id value, bindings.lookup? id = some value → value.Below bindings.size
  /-- The trail lists the bound variables. -/
  trailed : ∀ id, id ∈ bindings.trail.toList ↔ (bindings.lookup? id).isSome
  /-- The trail lists no variable twice. -/
  distinct : bindings.trail.toList.Nodup

namespace WellFormed

theorem descending (formed : WellFormed bindings) : bindings.Descending := formed.older

/-- The store without variables is well formed. -/
theorem empty : WellFormed Bindings.empty where
  older id other bound := by simp [lookup?, Bindings.empty] at bound
  below id value bound := by simp [lookup?, Bindings.empty] at bound
  trailed id := by simp [lookup?, Bindings.empty]
  distinct := List.nodup_nil

/-- Adding cells keeps a store well formed. -/
theorem reserve {bindings : Bindings} (formed : WellFormed bindings) (size : Nat) :
    WellFormed (bindings.reserve size) where
  older := formed.descending.reserve size
  below id value bound :=
    (formed.below id value (by simpa using bound)).mono (by rw [size_reserve]; omega)
  trailed id := by simpa using formed.trailed id
  distinct := formed.distinct

/-- Binding an unbound variable keeps a store well formed, if a variable is bound to an older one. -/
theorem bind {bindings : Bindings} (formed : WellFormed bindings) {id : Nat} {value : Term}
    (inside : id < bindings.size) (unbound : bindings.lookup? id = none)
    (below : value.Below bindings.size) (older : ∀ other, value = .var other → other < id) :
    WellFormed (bindings.bind id value) where
  older := formed.descending.bind older
  below id' value' bound := by
    rw [size_bind]
    rcases lookup?_of_bind bound with ⟨_, rfl⟩ | before
    · exact below
    · exact formed.below id' value' before
  trailed id' := by
    rw [trail_bind inside, lookup?_bind inside, Array.toList_push, List.mem_append, formed.trailed]
    by_cases same : id' = id <;> simp [same]
  distinct := by
    rw [trail_bind inside, Array.toList_push]
    refine List.nodup_append.mpr ⟨formed.distinct, by simp, ?_⟩
    intro other member id' member'
    obtain rfl : id' = id := by simpa using member'
    rintro rfl
    have bound := (formed.trailed other).mp member
    simp [unbound] at bound

end WellFormed

/-! ## Chains of variables -/

@[simp] theorem follow_int (bindings : Bindings) (steps : Nat) (value : Int64) :
    bindings.follow steps (.int value) = .int value := by cases steps <;> rfl

@[simp] theorem follow_atom (bindings : Bindings) (steps : Nat) (name : String) :
    bindings.follow steps (.atom name) = .atom name := by cases steps <;> rfl

@[simp] theorem follow_compound (bindings : Bindings) (steps : Nat) (name : String) (first : Term)
    (rest : List Term) :
    bindings.follow steps (.compound name first rest) = .compound name first rest := by
  cases steps <;> rfl

@[simp] theorem walk_int (bindings : Bindings) (value : Int64) :
    bindings.walk (.int value) = .int value := follow_int ..

@[simp] theorem walk_atom (bindings : Bindings) (name : String) :
    bindings.walk (.atom name) = .atom name := follow_atom ..

@[simp] theorem walk_compound (bindings : Bindings) (name : String) (first : Term) (rest : List Term) :
    bindings.walk (.compound name first rest) = .compound name first rest := follow_compound ..

/-- The chain of an unbound variable is the variable. -/
theorem walk_unbound (unbound : bindings.lookup? id = none) : bindings.walk (.var id) = .var id := by
  rw [walk]
  cases bindings.size with
  | zero => rfl
  | succ steps => simp [follow, unbound]

/-- The chain of a term that is not a variable is the term. -/
theorem walk_of_isVar_eq_false {term : Term} (other : term.isVar = false) : bindings.walk term = term := by
  cases term with
  | var id => simp [Term.isVar] at other
  | int value => simp
  | atom name => simp
  | compound name first rest => simp

namespace Descending

variable {bindings : Bindings} (descending : bindings.Descending)
include descending

/-- Once there are enough steps, their number has no influence. -/
theorem follow_eq_follow {left right : Nat} (term : Term)
    (enough : ∀ id, term = .var id → id < left ∧ id < right) :
    bindings.follow left term = bindings.follow right term := by
  induction left generalizing right term with
  | zero =>
    cases term with
    | var id => exact absurd (enough id rfl).1 (Nat.not_lt_zero id)
    | int value => simp
    | atom name => simp
    | compound name first rest => simp
  | succ left ih =>
    cases term with
    | var id =>
      obtain ⟨inside, inside'⟩ := enough id rfl
      cases right with
      | zero => exact absurd inside' (Nat.not_lt_zero id)
      | succ right =>
        cases cell : bindings.lookup? id with
        | none => simp [follow, cell]
        | some value =>
          simp only [follow, cell]
          apply ih
          rintro other rfl
          have older := descending id other cell
          omega
    | int value => simp
    | atom name => simp
    | compound name first rest => simp

/-- The chain of a bound variable is that of its value. -/
theorem walk_bound {id : Nat} {value : Term} (bound : bindings.lookup? id = some value) :
    bindings.walk (.var id) = bindings.walk value := by
  have inside := lt_size_of_lookup? bound
  obtain ⟨steps, size⟩ : ∃ steps, bindings.size = steps + 1 := ⟨bindings.size - 1, by omega⟩
  rw [walk, walk, size]
  simp only [follow, bound]
  apply descending.follow_eq_follow
  rintro other rfl
  have older := descending id other bound
  omega

/-- Induction along the chains of variables. -/
@[elab_as_elim]
theorem chainInduction {motive : Term → Prop}
    (bound : ∀ id value, bindings.lookup? id = some value → motive value → motive (.var id))
    (unbound : ∀ id, bindings.lookup? id = none → motive (.var id))
    (other : ∀ term : Term, term.isVar = false → motive term) (term : Term) : motive term := by
  have chains : ∀ id, motive (.var id) := by
    intro id
    induction id using Nat.strongRecOn with
    | ind id ih =>
      cases cell : bindings.lookup? id with
      | none => exact unbound id cell
      | some value =>
        apply bound id value cell
        cases value with
        | var older => exact ih older (descending id older cell)
        | int value => exact other _ rfl
        | atom name => exact other _ rfl
        | compound name first rest => exact other _ rfl
  cases term with
  | var id => exact chains id
  | int value => exact other _ rfl
  | atom name => exact other _ rfl
  | compound name first rest => exact other _ rfl

/-- A variable at the end of a chain is unbound. -/
theorem unbound_of_walk {term : Term} {id : Nat} :
    bindings.walk term = .var id → bindings.lookup? id = none := by
  induction term using descending.chainInduction with
  | bound start value cell ih =>
    rw [descending.walk_bound cell]
    exact ih
  | unbound start cell =>
    rw [walk_unbound cell]
    rintro ⟨rfl⟩
    exact cell
  | other term other =>
    rw [walk_of_isVar_eq_false other]
    rintro rfl
    simp [Term.isVar] at other

end Descending

/-- Chains stay among the variables of the store. -/
theorem WellFormed.walk_below (formed : WellFormed bindings) {term : Term} :
    term.Below bindings.size → (bindings.walk term).Below bindings.size := by
  induction term using formed.descending.chainInduction with
  | bound start value cell ih =>
    intro _
    rw [formed.descending.walk_bound cell]
    exact ih (formed.below start value cell)
  | unbound start cell =>
    rw [walk_unbound cell]
    exact id
  | other term other =>
    rw [walk_of_isVar_eq_false other]
    exact id

end HornLoops.Bindings
