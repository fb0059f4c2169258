import HornLoops.Proofs.Bindings.MostGeneral
import HornLoops.Proofs.Term.Renaming

/-!
# Regions of a store

A variable can be reached from another one by following bindings. Variables from which some variable cannot be reached
make up a region: their values mention variables of the region only, and this stays so while terms of the region are
unified with each other. New variables always belong to it. Whatever a run does inside a region, it neither sees nor
binds the variable outside.
-/

namespace HornLoops

/-- A variable can be reached from another one by following bindings. -/
inductive Bindings.Leads (bindings : Bindings) : Nat → Nat → Prop
  | refl (id : Nat) : Leads bindings id id
  | step {id next last : Nat} {value : Term} (bound : bindings.lookup? id = some value)
      (occurs : next ∈ value.occurrences) (leads : Leads bindings next last) : Leads bindings id last

/-- From an unbound variable nothing else can be reached. -/
theorem Bindings.Leads.eq_of_unbound {bindings : Bindings} {id last : Nat} (leads : bindings.Leads id last)
    (unbound : bindings.lookup? id = none) : last = id := by
  cases leads with
  | refl => rfl
  | step bound occurs leads => simp [unbound] at bound

/-- Variables that a run may deal with, and perhaps one that it may not. -/
structure Region where
  /-- Whether a variable belongs to the region. -/
  inside : Nat → Prop
  /-- The number from which on variables are new. -/
  limit : Nat
  /-- A variable outside. -/
  hidden : Option Nat
  /-- New variables belong to the region. -/
  new : ∀ id, limit ≤ id → inside id
  /-- The variable outside does not. -/
  apart : ∀ id ∈ hidden, ¬ inside id

namespace Region

variable (region : Region)

/-! ## Terms -/

/-- All variables of a term belong to the region. -/
def Covers (term : Term) : Prop := ∀ id ∈ term.occurrences, region.inside id

/-- All variables of some terms belong to the region. -/
def CoversAll (terms : List Term) : Prop := ∀ term ∈ terms, region.Covers term

variable {region}

@[simp] theorem covers_var {id : Nat} : region.Covers (.var id) ↔ region.inside id := by simp [Covers]

@[simp] theorem covers_int (value : Int64) : region.Covers (.int value) := by simp [Covers]

@[simp] theorem covers_atom (name : String) : region.Covers (.atom name) := by simp [Covers]

@[simp] theorem coversAll_nil : region.CoversAll [] := by simp [CoversAll]

variable {term : Term} {name : String} {next : Nat}

@[simp] theorem coversAll_cons {terms : List Term} :
    region.CoversAll (term :: terms) ↔ region.Covers term ∧ region.CoversAll terms := by simp [CoversAll]

theorem covers_build {args : List Term} : region.Covers (.build name args) ↔ region.CoversAll args := by
  simp only [Covers, CoversAll, Term.occurrences_build, List.mem_flatMap]
  exact ⟨fun covers term member id occurs => covers id ⟨term, member, occurs⟩,
    fun covers id ⟨term, member, occurs⟩ => covers term member id occurs⟩

theorem covers_compound {first : Term} {rest : List Term} :
    region.Covers (.compound name first rest) ↔ region.CoversAll (first :: rest) := by
  show region.Covers (.build name (first :: rest)) ↔ _
  exact covers_build

theorem Covers.args (covers : region.Covers term) : region.CoversAll term.args := by
  cases term with
  | compound name first rest => exact covers_compound.mp covers
  | _ => exact coversAll_nil

theorem covers_list {items : List Term} : region.Covers (.list items) ↔ region.CoversAll items := by
  induction items with
  | nil => exact iff_of_true (covers_atom _) coversAll_nil
  | cons item items ih =>
    show region.Covers (.compound "." item [.list items]) ↔ _
    simp [covers_compound, ih]

/-- Copies have new variables only. -/
theorem covers_copy (room : region.limit ≤ next) (term : Term) : region.Covers (term.rename (next + ·)) :=
  Term.forall_mem_rename fun id _ => region.new _ (Nat.le_trans room (Nat.le_add_right next id))

theorem coversAll_copy (room : region.limit ≤ next) (terms : List Term) :
    region.CoversAll (terms.map (Term.rename (next + ·))) := by
  intro term member
  obtain ⟨source, _, rfl⟩ := List.mem_map.mp member
  exact covers_copy room source

theorem Covers.subst {replace : Nat → Term} (each : ∀ id ∈ term.occurrences, region.Covers (replace id)) :
    region.Covers (term.subst replace) := by
  intro id occurs
  obtain ⟨other, inside, occurs⟩ := Term.mem_occurrences_subst.mp occurs
  exact each other inside id occurs

/-! ## Stores -/

variable (region)

/-- The values of the variables of a region stay inside, and the variable outside is unbound. -/
structure Confines (bindings : Bindings) : Prop where
  /-- What is not in the store yet is new. -/
  size : region.limit ≤ bindings.size
  /-- Values mention variables of the region only. -/
  closed : ∀ id value, region.inside id → bindings.lookup? id = some value → region.Covers value
  /-- The variable outside is unbound. -/
  unbound : ∀ id ∈ region.hidden, bindings.lookup? id = none

/-- The region of all variables. -/
def everywhere : Region where
  inside _ := True
  limit := 0
  hidden := none
  new _ _ := trivial
  apart _ none := by contradiction

variable {region}

theorem covers_everywhere (term : Term) : everywhere.Covers term := fun _ _ => trivial

theorem confines_everywhere (bindings : Bindings) : everywhere.Confines bindings where
  size := Nat.zero_le _
  closed _ value _ _ := covers_everywhere value
  unbound _ none := by contradiction

/-- The region of the variables from which one variable cannot be reached. -/
def around {bindings : Bindings} {hidden : Nat} (present : hidden < bindings.size) : Region where
  inside id := ¬ bindings.Leads id hidden
  limit := bindings.size
  hidden := some hidden
  new id new leads := by
    have same := leads.eq_of_unbound (Bindings.lookup?_eq_none_of_size_le new)
    omega
  apart id here outside := by
    obtain rfl := Option.some.inj here
    exact outside (.refl hidden)

theorem confines_around {bindings : Bindings} {hidden : Nat} (present : hidden < bindings.size)
    (unbound : bindings.lookup? hidden = none) : (around present).Confines bindings where
  size := Nat.le_refl _
  closed _ _ inside bound _ occurs leads := inside (.step bound occurs leads)
  unbound _ here := Option.some.inj here ▸ unbound

namespace Confines

open Bindings

variable {bindings : Bindings} (confines : region.Confines bindings)
include confines

variable {term left right : Term} {after : Bindings} {lefts rights : List Term}

/-- A store that binds no more is confined too. -/
theorem of_lookup? (size : region.limit ≤ after.size)
    (less : ∀ id, after.lookup? id = none ∨ after.lookup? id = bindings.lookup? id) : region.Confines after where
  size := size
  closed id value inside bound := by
    rcases less id with none | same
    · simp [none] at bound
    · exact confines.closed id value inside (same ▸ bound)
  unbound id here := by
    rcases less id with none | same
    · exact none
    · exact same.trans (confines.unbound id here)

theorem reserve (size : Nat) : region.Confines (bindings.reserve size) := by
  refine confines.of_lookup? ?_ fun id => .inr (lookup?_reserve bindings size id)
  have room := confines.size
  rw [size_reserve]
  omega

/-- Unbinding variables binds no more. -/
theorem unbindTo (mark : Mark) : region.Confines (bindings.unbindTo mark) := by
  refine confines.of_lookup? ?_ fun id => ?_
  · rw [Bindings.size, Bindings.unbindTo, size_release]
    exact confines.size
  · simp only [lookup?, Bindings.unbindTo, getElem?_release]
    by_cases since : id ∈ (bindings.trail.extract mark.trail).toList
    · rw [if_pos since]
      cases bindings.cells[id]? with
      | none => exact .inl rfl
      | some cell => exact .inl rfl
    · rw [if_neg since]
      exact .inr rfl

/-- Going back to a mark binds no more, and drops new variables only. -/
theorem undoTo {mark : Mark} (room : region.limit ≤ mark.cells) : region.Confines (bindings.undoTo mark) := by
  have before := confines.unbindTo mark
  refine before.of_lookup? ?_ fun id => ?_
  · have size := before.size
    simp only [Bindings.undoTo, Bindings.size, Array.size_shrink] at size ⊢
    omega
  · simp only [Bindings.undoTo, lookup?, ← Array.getElem?_toList, Array.toList_shrink]
    by_cases kept : id < mark.cells
    · exact .inr (by rw [List.getElem?_take_of_lt kept])
    · exact .inl (by rw [List.getElem?_take_eq_none (Nat.le_of_not_lt kept)]; rfl)

/-- Binding a variable of the region to a term of the region keeps it closed. -/
theorem bind {id : Nat} {value : Term} (inside : region.inside id) (covers : region.Covers value) :
    region.Confines (bindings.bind id value) := by
  by_cases known : id < bindings.size
  · refine ⟨by rw [size_bind]; exact confines.size, fun other found within bound => ?_, fun hidden here => ?_⟩
    · rcases lookup?_of_bind bound with ⟨_, rfl⟩ | before
      · exact covers
      · exact confines.closed other found within before
    · have other : hidden ≠ id := fun same => region.apart hidden here (same ▸ inside)
      rw [lookup?_bind known, if_neg other]
      exact confines.unbound hidden here
  · have nothing : bindings.bind id value = bindings := if_neg known
    rw [nothing]
    exact confines

theorem covers_follow {steps : Nat} (covers : region.Covers term) : region.Covers (bindings.follow steps term) := by
  induction steps generalizing term with
  | zero => exact covers
  | succ steps ih =>
    cases term with
    | var id =>
      rw [follow]
      cases bound : bindings.lookup? id with
      | none => exact covers
      | some value => exact ih (confines.closed id value (covers_var.mp covers) bound)
    | int value => exact covers
    | atom name => exact covers
    | compound name first rest => exact covers

theorem covers_walk (covers : region.Covers term) : region.Covers (bindings.walk term) :=
  confines.covers_follow covers

theorem covers_resolve (covers : region.Covers term) : region.Covers (bindings.resolve term) := by
  have within (levels : Nat) : ∀ term, region.Covers term → region.Covers (bindings.resolveWithin levels term) := by
    induction levels with
    | zero => exact fun term covers => covers
    | succ levels ih =>
      intro term covers
      refine .subst fun id occurs => ?_
      cases bound : bindings.lookup? id with
      | none => exact covers_var.mpr (covers id occurs)
      | some value => exact ih value (confines.closed id value (covers id occurs) bound)
  exact within _ term covers

/-! ## Unification -/

omit confines in
theorem maintained (region : Region) : Maintained region.Confines region.Covers where
  walk confines := confines.covers_walk
  args {term} covers arg member := by
    cases term with
    | compound name first rest => exact covers_compound.mp covers arg member
    | _ => cases member
  bind confines covers walked coversValue _ := by
    have ending := confines.covers_walk covers
    rw [walked, covers_var] at ending
    exact confines.bind ending coversValue

omit confines in
theorem takingBack {attempt : Bindings → Attempt} (confined : region.Confines (attempt bindings).2) :
    region.Confines (bindings.takingBack attempt).2 := by
  unfold Bindings.takingBack
  dsimp only
  split
  · rename_i result
    rw [result] at confined
    exact confined
  · rename_i result
    rw [result] at confined
    exact confined.unbindTo _

theorem unify (fuel : Nat) (coversLeft : region.Covers left) (coversRight : region.Covers right) :
    region.Confines (bindings.unify fuel left right).2 :=
  takingBack ((maintained region).unifyPairs fuel confines (by simpa using ⟨coversLeft, coversRight⟩))

theorem unifyEach (fuel : Nat) (coversLefts : region.CoversAll lefts) (coversRights : region.CoversAll rights) :
    region.Confines (Bindings.unifyEach fuel lefts rights bindings).2 := by
  induction lefts generalizing bindings rights with
  | nil => exact confines
  | cons left lefts ih =>
    match rights with
    | [] => exact confines
    | right :: rights =>
      rw [coversAll_cons] at coversLefts coversRights
      have first := confines.unify fuel coversLefts.1 coversRights.1
      rw [Bindings.unifyEach]
      split
      · rename_i result
        rw [result] at first
        exact ih first coversLefts.2 coversRights.2
      · exact first

/-- Unifying terms of a region stays in the region. -/
theorem unifyAll (fuel : Nat) (coversLefts : region.CoversAll lefts) (coversRights : region.CoversAll rights) :
    region.Confines (bindings.unifyAll fuel lefts rights).2 := by
  unfold Bindings.unifyAll
  split
  · exact takingBack (confines.unifyEach fuel coversLefts coversRights)
  · exact confines

end Confines

end Region

end HornLoops
