import HornLoops.Proofs.Bindings.Snapshots

/-!
# Unification of tuples

Unifying two compounds and unifying their arguments one after the other are the same, although the one works through a
single sequence of pairs and the other starts anew for each argument. Pairs are dealt with in order, and those that a
pair leads to come before the next one. So a sequence of pairs is unified by unifying its front and then, in the
bindings that this leaves, the rest.
-/

namespace HornLoops.Bindings

variable {left right : Term} {lefts rights : List Term} {bindings after : Bindings} {unified : Bool}
  {front back : List (Term × Term)}

/-! ## Sequences of pairs -/

/-- An attempt comes to an end. What it leaves behind counts only if it succeeds. -/
def Settles (attempt : Attempt) (unified : Bool) (after : Bindings) : Prop :=
  attempt.1 = some unified ∧ (unified = true → attempt.2 = after)

/-- With enough fuel, the unification of pairs comes to an end. -/
def Ends (pairs : List (Term × Term)) (bindings : Bindings) (unified : Bool) (after : Bindings) : Prop :=
  ∃ fuel, Settles (unifyPairs fuel pairs bindings) unified after

/-- Pairs in front are unified before the others. -/
theorem ends_of_append {fuel : Nat} (ended : Settles (unifyPairs fuel (front ++ back) bindings) unified after) :
    (∃ between, Ends front bindings true between ∧ Ends back between unified after) ∨
      unified = false ∧ Ends front bindings false after := by
  induction fuel generalizing front bindings with
  | zero =>
    cases front with
    | nil => exact .inl ⟨bindings, ⟨0, rfl, fun _ => rfl⟩, 0, ended⟩
    | cons pair front => cases ended.1
  | succ fuel ih =>
    cases front with
    | nil => exact .inl ⟨bindings, ⟨0, rfl, fun _ => rfl⟩, fuel + 1, ended⟩
    | cons pair front =>
      obtain ⟨move, -, result⟩ := exists_move pair.1 pair.2 bindings
      rw [List.cons_append, result] at ended
      cases move with
      | none =>
        obtain rfl : false = unified := Option.some.inj ended.1
        exact .inr ⟨rfl, 1, by rw [result]; exact ended⟩
      | some move =>
        -- the pairs that the first one leads to are still in front
        have more {first : Bool} {between : Bindings} : Ends (move.1 ++ front) move.2 first between →
            Ends (pair :: front) bindings first between :=
          fun ⟨fuel, ended⟩ => ⟨fuel + 1, by rw [result]; exact ended⟩
        dsimp only at ended
        rw [← List.append_assoc] at ended
        rcases ih ended with ⟨between, begun, later⟩ | ⟨failed, begun⟩
        · exact .inl ⟨between, more begun, later⟩
        · exact .inr ⟨failed, more begun⟩

/-- A front that is unified leaves the rest to be unified, and one that is not decides. -/
theorem ends_append_of_ends {first : Bool} {between : Bindings} (begun : Ends front bindings first between)
    (later : if first then Ends back between unified after else unified = false) :
    Ends (front ++ back) bindings unified after := by
  obtain ⟨fuel, begun⟩ := begun
  induction fuel generalizing front bindings with
  | zero =>
    cases front with
    | nil =>
      obtain rfl : true = first := Option.some.inj begun.1
      rwa [← begun.2 rfl] at later
    | cons pair front => cases begun.1
  | succ fuel ih =>
    cases front with
    | nil =>
      obtain rfl : true = first := Option.some.inj begun.1
      rwa [← begun.2 rfl] at later
    | cons pair front =>
      obtain ⟨move, -, result⟩ := exists_move pair.1 pair.2 bindings
      rw [result] at begun
      cases move with
      | none =>
        obtain rfl : false = first := Option.some.inj begun.1
        obtain rfl : unified = false := later
        exact ⟨1, by rw [List.cons_append, result]; exact ⟨rfl, nofun⟩⟩
      | some move =>
        obtain ⟨fuel', ended⟩ := ih begun
        rw [List.append_assoc] at ended
        exact ⟨fuel' + 1, by rw [List.cons_append, result]; exact ended⟩

/-! ## Tuples -/

/-- Taking back an attempt that did not succeed changes nothing that counts. -/
theorem settles_takingBack {attempt : Bindings → Attempt} :
    Settles (bindings.takingBack attempt) unified after ↔ Settles (attempt bindings) unified after := by
  rw [Settles, takingBack, Settles]
  rcases attempt bindings with ⟨_ | _ | _, last⟩ <;> simp +contextual

/-- Terms that are unified one after the other come to the same as all the pairs. -/
theorem exists_settles_unifyEach :
    (∃ fuel, Settles (unifyEach fuel lefts rights bindings) unified after) ↔
      Ends (lefts.zip rights) bindings unified after := by
  induction lefts generalizing rights bindings with
  | nil => exact exists_congr fun fuel => by cases fuel <;> rfl
  | cons left lefts ih =>
    cases rights with
    | nil => exact exists_congr fun fuel => by cases fuel <;> rfl
    | cons right rights =>
      constructor
      · rintro ⟨fuel, settles⟩
        rw [unifyEach] at settles
        rcases result : bindings.unify fuel left right with ⟨_ | first, between⟩
        · simp [Settles, result] at settles
        · have begun : Ends [(left, right)] bindings first between :=
            ⟨fuel, settles_takingBack.mp (by rw [← unify, result]; exact ⟨rfl, fun _ => rfl⟩)⟩
          apply ends_append_of_ends begun
          cases first with
          | true => exact ih.mp ⟨fuel, by simpa only [result] using settles⟩
          | false => simpa [Settles, result, eq_comm] using settles.1
      · rintro ⟨fuel, ended⟩
        rw [List.zip_cons_cons, ← List.singleton_append] at ended
        rcases ends_of_append ended with ⟨between, ⟨small, begun⟩, later⟩ | ⟨rfl, small, begun⟩
        · obtain ⟨small', later⟩ := ih.mpr later
          have first : bindings.unify small left right = (some true, between) :=
            have settles := settles_takingBack.mpr begun
            Prod.ext settles.1 (settles.2 rfl)
          refine ⟨max small small', ?_⟩
          rw [unifyEach, unify_mono (Nat.le_max_left small small') (by simp [first]), first]
          dsimp only
          rwa [unifyEach_mono (Nat.le_max_right small small') (by simp [later.1])]
        · have failed : (bindings.unify small left right).1 = some false := (settles_takingBack.mpr begun).1
          refine ⟨small, ?_, by simp⟩
          rw [unifyEach]
          rcases result : bindings.unify small left right with ⟨_ | _ | _, _⟩ <;> simp_all

/-- Sequences that were unified have the same length, and all their pairs are unified. -/
theorem ends_of_unifyAll {fuel : Nat} (success : bindings.unifyAll fuel lefts rights = (some true, after)) :
    lefts.length = rights.length ∧ Ends (lefts.zip rights) bindings true after := by
  rw [unifyAll] at success
  split at success
  · next length =>
    exact ⟨length, exists_settles_unifyEach.mp
      ⟨fuel, settles_takingBack.mp ⟨congrArg Prod.fst success, by simp [success]⟩⟩⟩
  · cases success

/-- An attempt that leaves no trace when it fails is decided by what counts of it. -/
theorem takingBack_eq_iff {attempt : Bindings → Attempt} (filled : Filled bindings (attempt bindings).2) :
    bindings.takingBack attempt = (some unified, after) ↔
      Settles (attempt bindings) unified after ∧ (unified = false → after = bindings) := by
  rw [Settles, takingBack_eq filled.grown filled.size]
  rcases attempt bindings with ⟨_ | _ | _, last⟩ <;> cases unified <;> simp [eq_comm]

/-- Sequences of the same length are unified as their pairs are. -/
theorem exists_unifyAll_eq_iff (descending : bindings.Descending) (length : lefts.length = rights.length) :
    (∃ fuel, bindings.unifyAll fuel lefts rights = (some unified, after)) ↔
      Ends (lefts.zip rights) bindings unified after ∧ (unified = false → after = bindings) := by
  simp only [unifyAll, if_pos length, takingBack_eq_iff (.unifyEach descending _ lefts rights), exists_and_right,
    exists_settles_unifyEach]

/-- Compounds are taken apart into the pairs of their arguments. -/
theorem ends_compound (name : String) (length : lefts.length = rights.length) :
    Ends [(.compound name left lefts, .compound name right rights)] bindings unified after ↔
      Ends ((left :: lefts).zip (right :: rights)) bindings unified after := by
  have apart (fuel : Nat) :
      unifyPairs (fuel + 1) [(.compound name left lefts, .compound name right rights)] bindings =
        unifyPairs fuel ((left :: lefts).zip (right :: rights)) bindings := by
    rw [unifyPairs_compatible (by simpa [Compatible] using length)]
    simp [Term.args]
  constructor
  · rintro ⟨fuel, ended⟩
    cases fuel with
    | zero => cases ended.1
    | succ fuel => exact ⟨fuel, apart fuel ▸ ended⟩
  · rintro ⟨fuel, ended⟩
    exact ⟨fuel + 1, (apart fuel).symm ▸ ended⟩

/-- Sequences of terms succeed or fail as compounds with these arguments do, and leave the same bindings and the same
trail. Either both attempts come to an end or none does. -/
theorem Built.unifyAll_iff_unify_compound (built : Built bindings) (name : String) (left right : Term)
    (length : lefts.length = rights.length) (unified : Bool) (after : Bindings) :
    (∃ fuel, bindings.unifyAll fuel (left :: lefts) (right :: rights) = (some unified, after)) ↔
      ∃ fuel, bindings.unify fuel (.compound name left lefts) (.compound name right rights) =
        (some unified, after) := by
  rw [exists_unifyAll_eq_iff built.descending (by simpa using length), ← ends_compound name length]
  simp only [unify, takingBack_eq_iff (.unifyPairs built.descending _ _), exists_and_right, Ends]

/-- The first arguments bind two variables, one of them to a term in which it occurs, before the last ones clash. -/
theorem Built.unifyAll_iff_unify_compound_clash :
    let bindings := (Bindings.empty.reserve 1).reserve 2
    let nest (term : Term) : Term := .compound "s" term []
    (bindings.unifyAll 9 [.var 1, .var 0] [.var 0, nest (.var 1)]).2.trail = #[1, 0] ∧
      ∃ fuel, bindings.unify fuel (.compound "f" (.var 1) [.var 0, .int 1])
        (.compound "f" (.var 0) [nest (.var 1), .int 2]) = (some false, bindings) := by
  have built : Built ((Bindings.empty.reserve 1).reserve 2) := .course .empty (.fresh (.fresh (.refl _)))
  refine ⟨by decide +kernel, (built.unifyAll_iff_unify_compound "f" _ _ (by rfl) false _).mp ⟨9, ?_⟩⟩
  rfl

end HornLoops.Bindings
