import HornLoops.Proofs.Bindings.Resolution

/-!
# Unification finds the most general solution

One move of unification looks at the ends of two chains of variables. It drops the pair, binds a variable, puts
the arguments in place of the compounds, or finds that nothing can make the two equal. Each move keeps the
solutions of store and pairs together, so a finished attempt has the solutions it began with. In a solution
the terms that are left get lighter with each move, which is why an attempt that has a solution ends although
nothing tests for circles.
-/

namespace HornLoops.Bindings

/-- A substitution unifies pairs of terms if it makes the terms of each pair equal. -/
def Unifies (solution : Nat → Term) (pairs : List (Term × Term)) : Prop :=
  ∀ pair ∈ pairs, pair.1.subst solution = pair.2.subst solution

@[simp] theorem unifies_nil (solution : Nat → Term) : Unifies solution [] := by
  simp [Unifies]

variable {solution : Nat → Term} {left right : Term} {lefts rights : List Term} {bindings : Bindings}
  {pairs : List (Term × Term)} {small large : Nat}

@[simp] theorem unifies_cons {rest : List (Term × Term)} :
    Unifies solution ((left, right) :: rest) ↔
      left.subst solution = right.subst solution ∧ Unifies solution rest := by
  simp [Unifies]

theorem unifies_append {front back : List (Term × Term)} :
    Unifies solution (front ++ back) ↔ Unifies solution front ∧ Unifies solution back := by
  simp only [Unifies, List.mem_append, or_imp, forall_and]

/-- Pairing sequences of equal length and unifying the pairs makes the sequences equal. -/
theorem unifies_zip (length : lefts.length = rights.length) :
    Unifies solution (lefts.zip rights) ↔
      lefts.map (Term.subst solution) = rights.map (Term.subst solution) := by
  induction lefts generalizing rights with
  | nil =>
    cases rights with
    | nil => simp
    | cons right rights => simp at length
  | cons left lefts ih =>
    cases rights with
    | nil => simp at length
    | cons right rights =>
      rw [List.zip_cons_cons, unifies_cons, ih (by simpa using length)]
      simp

/-- The symbols that a solution puts in place of the first terms of pairs. -/
def weigh (solution : Nat → Term) (pairs : List (Term × Term)) : Nat :=
  (pairs.map fun pair => (pair.1.subst solution).weight).sum

/-- The terms of all pairs mention variables below a limit only. -/
def PairsBelow (limit : Nat) (pairs : List (Term × Term)) : Prop :=
  ∀ pair ∈ pairs, pair.1.Below limit ∧ pair.2.Below limit

/-! ## Moves -/

/-- Whether two terms that are not variables have the same symbol. -/
def Compatible : Term → Term → Prop
  | .int left, .int right => left = right
  | .atom left, .atom right => left = right
  | .compound left _ rest, .compound right _ rest' => left = right ∧ rest.length = rest'.length
  | _, _ => False

/-- Terms that a substitution makes equal have the same symbol, unless one of them is a variable. -/
theorem compatible_of_subst_eq (solid : left.isVar = false) (solid' : right.isVar = false)
    (same : left.subst solution = right.subst solution) : Compatible left right := by
  cases left with
  | var id => simp [Term.isVar] at solid
  | int value => cases right <;> simp_all [Compatible, Term.isVar]
  | atom name => cases right <;> simp_all [Compatible, Term.isVar]
  | compound name first rest =>
    cases right with
    | var id => simp [Term.isVar] at solid'
    | int value => simp at same
    | atom name => simp at same
    | compound name' first' rest' =>
      simp only [Term.subst_compound, Term.compound.injEq] at same
      have length := congrArg List.length same.2.2
      exact ⟨same.1, by simpa using length⟩

/-- What the ends of two chains call for: pairs to go on with in a store, or nothing if they clash. -/
inductive Move (bindings : Bindings) (left right : Term) : Option (List (Term × Term) × Bindings) → Prop
  | agree (leaf : Term) (simple : leaf.args = []) (walkLeft : bindings.walk left = leaf)
      (walkRight : bindings.walk right = leaf) : Move bindings left right (some ([], bindings))
  | bindLeft (id : Nat) (value : Term) (walkLeft : bindings.walk left = .var id)
      (walkRight : bindings.walk right = value) (older : ∀ other, value = .var other → other < id) :
      Move bindings left right (some ([], bindings.bind id value))
  | bindRight (id : Nat) (value : Term) (walkLeft : bindings.walk left = value)
      (walkRight : bindings.walk right = .var id) (older : ∀ other, value = .var other → other < id) :
      Move bindings left right (some ([], bindings.bind id value))
  | split (name : String) (first first' : Term) (rest rest' : List Term)
      (length : rest.length = rest'.length)
      (walkLeft : bindings.walk left = .compound name first rest)
      (walkRight : bindings.walk right = .compound name first' rest') :
      Move bindings left right (some ((first, first') :: rest.zip rest', bindings))
  | clash (left' right' : Term) (solid : left'.isVar = false) (solid' : right'.isVar = false)
      (differ : ¬ Compatible left' right') (walkLeft : bindings.walk left = left')
      (walkRight : bindings.walk right = right') : Move bindings left right none

/-- Terms with the same symbol are leaves or have the same number of arguments. -/
theorem Compatible.cases (compatible : Compatible left right) : (left = right ∧ left.args = []) ∨
    ∃ name first first' rest rest', left = .compound name first rest ∧ right = .compound name first' rest' ∧
      rest.length = rest'.length := by
  cases left <;> cases right <;> simp_all [Compatible, Term.args]

/-- One of two terms is a variable that can be bound to the other one, or both are the same variable, or none is a
variable. -/
theorem exists_ends (left right : Term) :
    (∃ id value, (left = .var id ∧ right = value ∨ left = value ∧ right = .var id) ∧
        ∀ target, value = .var target → target < id) ∨
      (∃ id, left = .var id ∧ right = .var id) ∨ (left.isVar = false ∧ right.isVar = false) := by
  cases left with
  | var id =>
    cases right with
    | var id' =>
      rcases Nat.lt_trichotomy id id' with less | rfl | more
      · exact .inl ⟨id', .var id, .inr ⟨rfl, rfl⟩, by simpa using less⟩
      · exact .inr (.inl ⟨id, rfl, rfl⟩)
      · exact .inl ⟨id, .var id', .inl ⟨rfl, rfl⟩, by simpa using more⟩
    | _ => exact .inl ⟨id, _, .inl ⟨rfl, rfl⟩, by simp⟩
  | _ =>
    cases right with
    | var id => exact .inl ⟨id, _, .inr ⟨rfl, rfl⟩, by simp⟩
    | _ => exact .inr (.inr ⟨rfl, rfl⟩)

section

variable {fuel : Nat} {rest : List (Term × Term)}

/-- Terms with the same symbol are taken apart. -/
theorem unifyPairs_compatible (compatible : Compatible (bindings.walk left) (bindings.walk right)) :
    unifyPairs (fuel + 1) ((left, right) :: rest) bindings =
      unifyPairs fuel ((bindings.walk left).args.zip (bindings.walk right).args ++ rest) bindings := by
  rw [unifyPairs]
  cases walkLeft : bindings.walk left <;> cases walkRight : bindings.walk right <;>
    simp_all [Compatible, Term.args]

/-- Terms with different symbols are not unified. -/
theorem unifyPairs_clash (solid : (bindings.walk left).isVar = false) (solid' : (bindings.walk right).isVar = false)
    (differ : ¬ Compatible (bindings.walk left) (bindings.walk right)) :
    unifyPairs (fuel + 1) ((left, right) :: rest) bindings = (some false, bindings) := by
  rw [unifyPairs]
  cases walkLeft : bindings.walk left <;> cases walkRight : bindings.walk right <;>
    simp_all [Compatible, Term.isVar]

/-- A variable is bound to an older one or to a term that is not a variable, on whichever side it stands. -/
theorem unifyPairs_bind {id : Nat} {value : Term}
    (ends : bindings.walk left = .var id ∧ bindings.walk right = value ∨
      bindings.walk left = value ∧ bindings.walk right = .var id)
    (older : ∀ target, value = .var target → target < id) :
    unifyPairs (fuel + 1) ((left, right) :: rest) bindings = unifyPairs fuel rest (bindings.bind id value) := by
  rcases ends with ⟨walk, walk'⟩ | ⟨walk, walk'⟩
  all_goals
    rw [unifyPairs, walk, walk']
    cases value with
    | var target => grind
    | _ => rfl

/-- A variable and itself are unified already. -/
theorem unifyPairs_same {id : Nat} (walk : bindings.walk left = .var id) (walk' : bindings.walk right = .var id) :
    unifyPairs (fuel + 1) ((left, right) :: rest) bindings = unifyPairs fuel rest bindings := by
  rw [unifyPairs, walk, walk']
  simp

end

/-- Unification makes a move and goes on with what it calls for. -/
theorem exists_move (left right : Term) (bindings : Bindings) :
    ∃ move, Move bindings left right move ∧ ∀ fuel rest,
      unifyPairs (fuel + 1) ((left, right) :: rest) bindings =
        match move with
        | some (pairs, after) => unifyPairs fuel (pairs ++ rest) after
        | none => (some false, bindings) := by
  rcases exists_ends (bindings.walk left) (bindings.walk right) with
    ⟨id, value, ends, older⟩ | ⟨id, walk, walk'⟩ | ⟨solid, solid'⟩
  · refine ⟨some ([], bindings.bind id value), ?_, fun fuel rest => unifyPairs_bind ends older⟩
    rcases ends with ⟨walk, walk'⟩ | ⟨walk, walk'⟩
    · exact .bindLeft id value walk walk' older
    · exact .bindRight id value walk walk' older
  · exact ⟨_, .agree (.var id) rfl walk walk', fun fuel rest => unifyPairs_same walk walk'⟩
  · by_cases same : Compatible (bindings.walk left) (bindings.walk right)
    · rcases same.cases with ⟨equal, leaf⟩ | ⟨name, first, first', args, args', walk, walk', length⟩
      · refine ⟨_, .agree _ leaf rfl equal.symm, fun fuel rest => ?_⟩
        rw [unifyPairs_compatible same, ← equal, leaf]
        rfl
      · refine ⟨_, .split name first first' args args' length walk walk', fun fuel rest => ?_⟩
        rw [unifyPairs_compatible same, walk, walk']
        rfl
    · exact ⟨_, .clash _ _ solid solid' same rfl rfl, fun fuel rest => unifyPairs_clash solid solid' same⟩

/-- A property of stores that unification maintains as long as the terms have some property. -/
structure Maintained (store : Bindings → Prop) (term : Term → Prop) : Prop where
  /-- The ends of chains have the property. -/
  walk : ∀ {bindings each}, store bindings → term each → term (bindings.walk each)
  /-- So do the arguments of compounds. -/
  args : ∀ {each}, term each → ∀ arg ∈ each.args, term arg
  /-- The variable at the end of a chain may be bound. -/
  bind : ∀ {bindings each id value}, store bindings → term each → bindings.walk each = .var id → term value →
    (∀ other, value = .var other → other < id) → store (bindings.bind id value)

namespace Maintained

variable {store : Bindings → Prop} {term : Term → Prop} (maintained : Maintained store term)
include maintained

/-- A move maintains the property, and the pairs to go on with are made of such terms. -/
theorem move {after : Bindings} {rest : List (Term × Term)} (holds : store bindings)
    (all : ∀ pair ∈ (left, right) :: rest, term pair.1 ∧ term pair.2)
    (moves : Move bindings left right (some (pairs, after))) :
    store after ∧ ∀ pair ∈ pairs ++ rest, term pair.1 ∧ term pair.2 := by
  obtain ⟨⟨isLeft, isRight⟩, others⟩ := List.forall_mem_cons.mp all
  have endLeft := maintained.walk holds isLeft
  have endRight := maintained.walk holds isRight
  cases moves with
  | agree leaf simple walkLeft walkRight => exact ⟨holds, others⟩
  | bindLeft id value walkLeft walkRight older =>
    exact ⟨maintained.bind holds isLeft walkLeft (walkRight ▸ endRight) older, others⟩
  | bindRight id value walkLeft walkRight older =>
    exact ⟨maintained.bind holds isRight walkRight (walkLeft ▸ endLeft) older, others⟩
  | split name first first' args args' length walkLeft walkRight =>
    rw [walkLeft] at endLeft
    rw [walkRight] at endRight
    refine ⟨holds, List.forall_mem_append.mpr ⟨fun pair member => ?_, others⟩⟩
    have parts := List.of_mem_zip (show (pair.1, pair.2) ∈ (first :: args).zip (first' :: args') from member)
    exact ⟨maintained.args endLeft _ parts.1, maintained.args endRight _ parts.2⟩

theorem unifyPairs (fuel : Nat) (holds : store bindings) (all : ∀ pair ∈ pairs, term pair.1 ∧ term pair.2) :
    store (unifyPairs fuel pairs bindings).2 := by
  induction fuel generalizing bindings pairs with
  | zero => cases pairs <;> exact holds
  | succ fuel ih =>
    match pairs with
    | [] => exact holds
    | (left, right) :: rest =>
      obtain ⟨move, moves, result⟩ := exists_move left right bindings
      rw [result fuel rest]
      match move with
      | none => exact holds
      | some (pairs, after) =>
        obtain ⟨holds', all'⟩ := maintained.move holds all moves
        exact ih holds' all'

end Maintained

/-- A variable at the end of a chain is a variable of the store. -/
theorem WellFormed.lt_size_of_walk (formed : WellFormed bindings) {term : Term} {id : Nat}
    (below : term.Below bindings.size) (walked : bindings.walk term = .var id) : id < bindings.size := by
  have ending := formed.walk_below below
  rwa [walked, Term.below_var] at ending

/-- Unification keeps a store well formed and lets it grow, but adds no cells. -/
theorem maintained_grown (before : Bindings) :
    Maintained (fun after => WellFormed after ∧ Grown before after ∧ after.size = before.size)
      fun term => term.Below before.size where
  walk := by
    rintro bindings term ⟨formed, _, size⟩ below
    rw [← size] at below ⊢
    exact formed.walk_below below
  args below := below.args
  bind := by
    rintro bindings term id value ⟨formed, grown, size⟩ below walked belowValue older
    rw [← size] at below belowValue
    have inside := formed.lt_size_of_walk below walked
    have unbound := formed.descending.unbound_of_walk walked
    exact ⟨formed.bind inside unbound belowValue older, grown.trans (.bind inside unbound value),
      (size_bind ..).trans size⟩

/-- Solving a store in which one more variable is bound is solving the store and one more equation. -/
theorem satisfies_bind {id : Nat} (inside : id < bindings.size) (unbound : bindings.lookup? id = none) (value : Term)
    (solution : Nat → Term) :
    (bindings.bind id value).Satisfies solution ↔
      bindings.Satisfies solution ∧ solution id = value.subst solution := by
  constructor
  · intro satisfies
    constructor
    · intro other value' bound
      have differ : other ≠ id := by
        rintro rfl
        rw [unbound] at bound
        contradiction
      exact satisfies other value' (by rwa [lookup?_bind inside, if_neg differ])
    · exact satisfies id value (by simp [lookup?_bind inside])
  · rintro ⟨satisfies, same⟩ other value' bound
    rcases lookup?_of_bind bound with ⟨rfl, rfl⟩ | before
    · exact same
    · exact satisfies other value' before

namespace Move

variable {bindings after : Bindings} {left right : Term} {pairs : List (Term × Term)}

/-- Binding the variable at the end of a chain asks for the same as equating the two chains. -/
theorem satisfies_bound (formed : WellFormed bindings) {term other value : Term} {id : Nat}
    (below : term.Below bindings.size) (walkTerm : bindings.walk term = .var id)
    (walkOther : bindings.walk other = value) (solution : Nat → Term) :
    (bindings.bind id value).Satisfies solution ↔
      bindings.Satisfies solution ∧ term.subst solution = other.subst solution := by
  rw [satisfies_bind (formed.lt_size_of_walk below walkTerm) (formed.descending.unbound_of_walk walkTerm)]
  apply and_congr_right
  intro satisfies
  rw [← satisfies.subst_walk term, ← satisfies.subst_walk other, walkTerm, walkOther, Term.subst_var]

/-- A move keeps the solutions of store and pairs. -/
theorem solutions (formed : WellFormed bindings) (belowLeft : left.Below bindings.size)
    (belowRight : right.Below bindings.size) (move : Move bindings left right (some (pairs, after)))
    (solution : Nat → Term) :
    after.Satisfies solution ∧ Unifies solution pairs ↔
      bindings.Satisfies solution ∧ left.subst solution = right.subst solution := by
  cases move with
  | agree leaf simple walkLeft walkRight =>
    simp only [unifies_nil, and_true, iff_self_and]
    intro satisfies
    rw [← satisfies.subst_walk left, ← satisfies.subst_walk right, walkLeft, walkRight]
  | bindLeft id value walkLeft walkRight older =>
    rw [satisfies_bound formed belowLeft walkLeft walkRight]
    simp
  | bindRight id value walkLeft walkRight older =>
    rw [satisfies_bound formed belowRight walkRight walkLeft]
    simp [eq_comm]
  | split name first first' rest rest' length walkLeft walkRight =>
    apply and_congr_right
    intro satisfies
    rw [← satisfies.subst_walk left, ← satisfies.subst_walk right, walkLeft, walkRight, unifies_cons,
      unifies_zip length]
    simp

/-- Nothing makes terms equal that clash. -/
theorem unsolvable (move : Move bindings left right none) {solution : Nat → Term}
    (satisfies : bindings.Satisfies solution) : left.subst solution ≠ right.subst solution := by
  cases move with
  | clash left' right' solid solid' differ walkLeft walkRight =>
    rw [← satisfies.subst_walk left, ← satisfies.subst_walk right, walkLeft, walkRight]
    intro same
    exact differ (compatible_of_subst_eq solid solid' same)

/-- In a solution, the pairs to go on with are lighter than the pair before. -/
theorem weigh_lt (move : Move bindings left right (some (pairs, after))) {solution : Nat → Term}
    (satisfies : bindings.Satisfies solution) :
    weigh solution pairs < (left.subst solution).weight := by
  have positive := (left.subst solution).weight_pos
  cases move with
  | agree leaf simple walkLeft walkRight => simpa [weigh] using positive
  | bindLeft id value walkLeft walkRight older => simpa [weigh] using positive
  | bindRight id value walkLeft walkRight older => simpa [weigh] using positive
  | split name first first' rest rest' length walkLeft walkRight =>
    have rests : (rest.zip rest').map (fun pair => (pair.1.subst solution).weight) =
        rest.map fun term => (term.subst solution).weight := by
      rw [← List.map_fst_zip (Nat.le_of_eq length), List.map_map]
      simp [Function.comp_def, List.map_fst_zip (Nat.le_of_eq length)]
    rw [← satisfies.subst_walk left, walkLeft, Term.subst_compound, Term.weight_compound, weigh,
      List.map_cons, List.sum_cons, rests, List.map_map]
    simp [Function.comp_def]

end Move

/-! ## Attempts -/

/-- What an attempt to unify pairs of terms comes to. -/
structure Solved (before : Bindings) (pairs : List (Term × Term)) (attempt : Attempt) : Prop where
  /-- The store is well formed afterwards. -/
  formed : WellFormed attempt.2
  /-- Nothing but empty cells was filled. -/
  grown : Grown before attempt.2
  /-- No cells were added. -/
  size : attempt.2.size = before.size
  /-- After a success the store has exactly the solutions that unify the pairs. -/
  solutions : attempt.1 = some true → ∀ solution,
    attempt.2.Satisfies solution ↔ before.Satisfies solution ∧ Unifies solution pairs
  /-- After a failure there is no solution that unifies the pairs. -/
  unsolvable : attempt.1 = some false → ∀ solution,
    before.Satisfies solution → ¬ Unifies solution pairs

/-- Unification of pairs keeps the solutions, as each move does. -/
theorem solved_unifyPairs (formed : WellFormed bindings) (fuel : Nat) (below : PairsBelow bindings.size pairs) :
    Solved bindings pairs (unifyPairs fuel pairs bindings) := by
  induction fuel generalizing bindings pairs with
  | zero =>
    cases pairs with
    | nil => exact ⟨formed, .refl _, rfl, by simp [unifyPairs], by simp [unifyPairs]⟩
    | cons pair rest => exact ⟨formed, .refl _, rfl, by simp [unifyPairs], by simp [unifyPairs]⟩
  | succ fuel ih =>
    cases pairs with
    | nil => exact ⟨formed, .refl _, rfl, by simp [unifyPairs], by simp [unifyPairs]⟩
    | cons pair rest =>
      obtain ⟨left, right⟩ := pair
      obtain ⟨belowLeft, belowRight⟩ := below (left, right) (by simp)
      obtain ⟨move, moves, result⟩ := exists_move left right bindings
      rw [result fuel rest]
      match move with
      | none =>
        refine ⟨formed, .refl _, rfl, by simp, ?_⟩
        intro _ solution satisfies unifies
        exact moves.unsolvable satisfies (unifies_cons.mp unifies).1
      | some (pairs, after) =>
        obtain ⟨⟨formed', grown, size⟩, below'⟩ := (maintained_grown bindings).move ⟨formed, .refl _, rfl⟩ below moves
        have kept := moves.solutions formed belowLeft belowRight
        have later := ih formed' (size ▸ below')
        refine ⟨later.formed, grown.trans later.grown, later.size.trans size, ?_, ?_⟩
        · intro success solution
          rw [later.solutions success, unifies_append, ← and_assoc, kept, unifies_cons, and_assoc]
        · intro failure solution satisfies unifies
          obtain ⟨same, others⟩ := unifies_cons.mp unifies
          obtain ⟨satisfies', unifies'⟩ := (kept solution).mpr ⟨satisfies, same⟩
          exact later.unsolvable failure solution satisfies' (unifies_append.mpr ⟨unifies', others⟩)

/-- An attempt that has a solution ends after as many moves as the solution has symbols. -/
theorem unifyPairs_of_solution (formed : WellFormed bindings) (below : PairsBelow bindings.size pairs)
    (satisfies : bindings.Satisfies solution) (unifies : Unifies solution pairs) {fuel : Nat}
    (enough : weigh solution pairs ≤ fuel) : (unifyPairs fuel pairs bindings).1 = some true := by
  induction fuel generalizing bindings pairs with
  | zero =>
    cases pairs with
    | nil => rfl
    | cons pair rest =>
      have positive := (pair.1.subst solution).weight_pos
      simp only [weigh, List.map_cons, List.sum_cons] at enough
      omega
  | succ fuel ih =>
    cases pairs with
    | nil => rfl
    | cons pair rest =>
      obtain ⟨left, right⟩ := pair
      obtain ⟨belowLeft, belowRight⟩ := below (left, right) (by simp)
      obtain ⟨same, others⟩ := unifies_cons.mp unifies
      obtain ⟨move, moves, result⟩ := exists_move left right bindings
      rw [result fuel rest]
      match move with
      | none => exact absurd same (moves.unsolvable satisfies)
      | some (pairs, after) =>
        obtain ⟨⟨formed', _, size⟩, below'⟩ := (maintained_grown bindings).move ⟨formed, .refl _, rfl⟩ below moves
        obtain ⟨satisfies', unifies'⟩ :=
          (moves.solutions formed belowLeft belowRight solution).mpr ⟨satisfies, same⟩
        have lighter := moves.weigh_lt satisfies
        apply ih formed' (size ▸ below') satisfies' (unifies_append.mpr ⟨unifies', others⟩)
        simp only [weigh, List.map_append, List.sum_append, List.map_cons, List.sum_cons] at *
        omega

/-- More fuel does not change a finished attempt. -/
theorem unifyPairs_mono (le : small ≤ large) (finished : (unifyPairs small pairs bindings).1 ≠ none) :
    unifyPairs large pairs bindings = unifyPairs small pairs bindings := by
  induction small generalizing large pairs bindings with
  | zero =>
    cases pairs with
    | nil => cases large <;> rfl
    | cons pair rest => simp [unifyPairs] at finished
  | succ small ih =>
    obtain ⟨large, rfl⟩ : ∃ rest, large = rest + 1 := ⟨large - 1, by omega⟩
    have le' : small ≤ large := by omega
    cases pairs with
    | nil => rfl
    | cons pair rest =>
      obtain ⟨left, right⟩ := pair
      obtain ⟨move, _, result⟩ := exists_move left right bindings
      rw [result] at finished ⊢
      rw [result]
      match move with
      | none => rfl
      | some (pairs, after) => exact ih le' finished

/-- Taking back keeps the outcome of an attempt. -/
@[simp] theorem takingBack_fst (bindings : Bindings) (attempt : Bindings → Attempt) :
    (bindings.takingBack attempt).1 = (attempt bindings).1 := by
  rw [takingBack]
  match attempt bindings with
  | (some true, after) => rfl
  | (some false, after) => rfl
  | (none, after) => rfl

theorem unify_mono (le : small ≤ large) (finished : (bindings.unify small left right).1 ≠ none) :
    bindings.unify large left right = bindings.unify small left right := by
  rw [unify, takingBack_fst] at finished
  rw [unify, unify, takingBack, unifyPairs_mono le finished, takingBack]

theorem unifyEach_mono (le : small ≤ large) (finished : (unifyEach small lefts rights bindings).1 ≠ none) :
    unifyEach large lefts rights bindings = unifyEach small lefts rights bindings := by
  induction lefts generalizing rights bindings with
  | nil => rfl
  | cons left lefts ih =>
    cases rights with
    | nil => rfl
    | cons right rights =>
      have first : (bindings.unify small left right).1 ≠ none := by
        intro stopped
        rw [unifyEach] at finished
        match result : bindings.unify small left right with
        | (some unified, after) => simp [result] at stopped
        | (none, after) => simp [result] at finished
      rw [unifyEach] at finished ⊢
      rw [unifyEach, unify_mono le first]
      match result : bindings.unify small left right with
      | (some true, after) =>
        rw [result] at finished
        exact ih finished
      | (some false, after) => rfl
      | (none, after) => rfl

/-- More fuel does not change the finished unification of sequences. -/
theorem unifyAll_mono (le : small ≤ large) (finished : (bindings.unifyAll small lefts rights).1 ≠ none) :
    bindings.unifyAll large lefts rights = bindings.unifyAll small lefts rights := by
  rw [unifyAll] at finished ⊢
  rw [unifyAll]
  split
  · rename_i length
    rw [if_pos length, takingBack_fst] at finished
    rw [takingBack, unifyEach_mono le finished, takingBack]
  · rfl

/-- Without new cells, an attempt either succeeds or leaves no trace. -/
theorem takingBack_eq {attempt : Bindings → Attempt} (grown : Grown bindings (attempt bindings).2)
    (size : (attempt bindings).2.size = bindings.size) :
    bindings.takingBack attempt =
      if (attempt bindings).1 = some true then attempt bindings
      else ((attempt bindings).1, bindings) := by
  have back := grown.unbindTo_eq size
  rw [takingBack]
  match result : attempt bindings with
  | (some true, after) => rfl
  | (some false, after) =>
    rw [result] at back
    simp [back]
  | (none, after) =>
    rw [result] at back
    simp [back]

/-- Unification takes back everything if it fails. -/
theorem solved_unify (formed : WellFormed bindings) (fuel : Nat) (belowLeft : left.Below bindings.size)
    (belowRight : right.Below bindings.size) :
    Solved bindings [(left, right)] (bindings.unify fuel left right) ∧
      ((bindings.unify fuel left right).1 ≠ some true →
        (bindings.unify fuel left right).2 = bindings) := by
  have below : PairsBelow bindings.size [(left, right)] := by simp [PairsBelow, belowLeft, belowRight]
  have attempt := solved_unifyPairs formed fuel below
  rw [unify, takingBack_eq attempt.grown attempt.size]
  by_cases success : (unifyPairs fuel [(left, right)] bindings).1 = some true
  · rw [if_pos success]
    exact ⟨attempt, fun failure => absurd success failure⟩
  · rw [if_neg success]
    exact ⟨⟨formed, .refl _, rfl, fun success' => absurd success' success, attempt.unsolvable⟩,
      fun _ => rfl⟩

/-! ## Reachable stores -/

/-- The stores that can be built one operation after the other, with the marks that can still be gone back to,
the latest first. An attempt to unify has to come to an end, and going back to a mark gives up the later ones. -/
inductive Reachable : Bindings → List Mark → Prop
  | empty : Reachable Bindings.empty []
  | fresh {bindings : Bindings} {marks : List Mark} (reachable : Reachable bindings marks) :
      Reachable (bindings.reserve (bindings.size + 1)) marks
  | unify {bindings : Bindings} {marks : List Mark} (reachable : Reachable bindings marks) (fuel : Nat)
      (left right : Term) (belowLeft : left.Below bindings.size)
      (belowRight : right.Below bindings.size) (ended : (bindings.unify fuel left right).1.isSome) :
      Reachable (bindings.unify fuel left right).2 marks
  | mark {bindings : Bindings} {marks : List Mark} (reachable : Reachable bindings marks) :
      Reachable bindings (bindings.mark :: marks)
  | undo {bindings : Bindings} {newer older : List Mark} {mark : Mark}
      (reachable : Reachable bindings (newer ++ mark :: older)) :
      Reachable (bindings.undoTo mark) (mark :: older)

/-- A store has grown out of the stores at which its marks were taken, each out of the one before. -/
def GrownFrom : Bindings → List Mark → Prop
  | bindings, [] => WellFormed bindings
  | bindings, mark :: marks =>
    WellFormed bindings ∧ ∃ old : Bindings, old.mark = mark ∧ Grown old bindings ∧ GrownFrom old marks

namespace GrownFrom

variable {bindings : Bindings} {marks : List Mark}

theorem wellFormed (history : GrownFrom bindings marks) : WellFormed bindings := by
  cases marks with
  | nil => exact history
  | cons mark marks => exact history.1

/-- A store that grows still has grown out of the stores before. -/
theorem grow {after : Bindings} (history : GrownFrom bindings marks) (formed : WellFormed after)
    (grown : Grown bindings after) : GrownFrom after marks := by
  cases marks with
  | nil => exact formed
  | cons mark marks =>
    obtain ⟨_, old, same, grown', history'⟩ := history
    exact ⟨formed, old, same, grown'.trans grown, history'⟩

/-- There is a store behind every mark. -/
theorem exists_old {newer older : List Mark} {mark : Mark} (history : GrownFrom bindings (newer ++ mark :: older)) :
    ∃ old : Bindings, old.mark = mark ∧ Grown old bindings ∧ GrownFrom old older := by
  induction newer generalizing bindings with
  | nil => exact history.2
  | cons _ newer ih =>
    obtain ⟨_, between, _, grown, history'⟩ := history
    obtain ⟨old, same, grown', history''⟩ := ih history'
    exact ⟨old, same, grown'.trans grown, history''⟩

end GrownFrom

/-- Every operation keeps the history of a store. -/
theorem Reachable.grownFrom {marks : List Mark} (reachable : Reachable bindings marks) : GrownFrom bindings marks := by
  induction reachable with
  | empty => exact WellFormed.empty
  | fresh reachable ih => exact ih.grow (ih.wellFormed.reserve _) (.reserve _ _)
  | unify reachable fuel left right belowLeft belowRight ended ih =>
    have solved := (solved_unify ih.wellFormed fuel belowLeft belowRight).1
    exact ih.grow solved.formed solved.grown
  | mark reachable ih => exact ⟨ih.wellFormed, _, rfl, .refl _, ih⟩
  | undo reachable ih =>
    obtain ⟨old, rfl, grown, history⟩ := ih.exists_old
    rw [grown.undoTo]
    exact ⟨history.wellFormed, old, rfl, .refl _, history⟩

/-- Unification finds a most general unifier. In a reachable store and for terms over its variables: if a
substitution of finite terms satisfies the store and makes the terms equal, then unification ends with success
in a store without circles in which the terms are resolved alike and which every such substitution satisfies;
and if unification fails, there is no such substitution and the store is as it was. That the store has no
circles before need not be asked for, since only such stores have solutions. -/
theorem unify_mostGeneral {bindings : Bindings} {marks : List Mark}
    (reachable : Reachable bindings marks) (left right : Term) (belowLeft : left.Below bindings.size)
    (belowRight : right.Below bindings.size) :
    ((∃ solution, bindings.Satisfies solution ∧ left.subst solution = right.subst solution) →
      ∃ enough after, (∀ fuel ≥ enough, bindings.unify fuel left right = (some true, after)) ∧
        after.Acyclic ∧ after.resolve left = after.resolve right ∧
        ∀ solution, bindings.Satisfies solution → left.subst solution = right.subst solution →
          after.Satisfies solution) ∧
    (∀ fuel after, bindings.unify fuel left right = (some false, after) →
      (∀ solution, bindings.Satisfies solution → left.subst solution ≠ right.subst solution) ∧
        after = bindings) := by
  have formed := reachable.grownFrom.wellFormed
  have below : PairsBelow bindings.size [(left, right)] := by simp [PairsBelow, belowLeft, belowRight]
  constructor
  · rintro ⟨solution, satisfies, same⟩
    let enough := weigh solution [(left, right)]
    have success := unifyPairs_of_solution formed below satisfies (by simpa using same)
      (Nat.le_refl enough)
    have solved := solved_unifyPairs formed enough below
    let after := (unifyPairs enough [(left, right)] bindings).2
    have solutions : ∀ solution, after.Satisfies solution ↔
        bindings.Satisfies solution ∧ left.subst solution = right.subst solution := by
      simpa using solved.solutions success
    have acyclic' : after.Acyclic :=
      solved.formed.acyclic_of_satisfies ((solutions solution).mpr ⟨satisfies, same⟩)
    refine ⟨enough, after, ?_, acyclic', ?_, fun solution satisfies same =>
      (solutions solution).mpr ⟨satisfies, same⟩⟩
    · intro fuel more
      have finished : (unifyPairs enough [(left, right)] bindings).1 ≠ none := by simp [success]
      have result : unifyPairs fuel [(left, right)] bindings = (some true, after) := by
        rw [unifyPairs_mono more finished, ← success]
      simp [unify, takingBack, result]
    · rw [resolve_eq_subst, resolve_eq_subst after right]
      exact ((solutions _).mp acyclic'.satisfies_resolve).2
  · intro fuel after failure
    obtain ⟨solved, back⟩ := solved_unify formed fuel belowLeft belowRight
    rw [failure] at solved back
    exact ⟨by simpa using solved.unsolvable rfl, back (by simp)⟩

/-- Where the third variable is `f` of the first, `g(V2, V1)` and `g(f(V1), a)` are unified, and the third variable
cannot be `a`. -/
theorem unify_mostGeneral_nested :
    (∃ enough after,
      (∀ fuel ≥ enough,
        unify fuel (.compound "g" (.var 2) [.var 1])
          (.compound "g" (.compound "f" (.var 1) []) [.atom "a"])
          ⟨#[none, none, some (.compound "f" (.var 0) [])], #[2]⟩ = (some true, after)) ∧
      after.Acyclic ∧
      after.resolve (.compound "g" (.var 2) [.var 1]) =
        after.resolve (.compound "g" (.compound "f" (.var 1) []) [.atom "a"])) ∧
    ∀ solution, Satisfies ⟨#[none, none, some (.compound "f" (.var 0) [])], #[2]⟩ solution →
      solution 2 ≠ .atom "a" := by
  have reachable : Reachable ⟨#[none, none, some (.compound "f" (.var 0) [])], #[2]⟩ [] :=
    .unify (.fresh (.fresh (.fresh .empty))) 1 (.var 2) (.compound "f" (.var 0) []) (by decide)
      (by decide) rfl
  obtain ⟨success, _⟩ := unify_mostGeneral reachable (.compound "g" (.var 2) [.var 1])
    (.compound "g" (.compound "f" (.var 1) []) [.atom "a"]) (by decide) (by decide)
  obtain ⟨_, failure⟩ := unify_mostGeneral reachable (.var 2) (.atom "a") (by decide) (by decide)
  obtain ⟨enough, after, result, acyclic, same, _⟩ := success
    ⟨fun id => if id = 2 then .compound "f" (.atom "a") [] else .atom "a", by
      intro id value bound
      match id with
      | 0 => simp [lookup?] at bound
      | 1 => simp [lookup?] at bound
      | 2 => obtain rfl : .compound "f" (.var 0) [] = value := by simpa [lookup?] using bound
             rfl
      | _ + 3 => simp [lookup?] at bound, by rfl⟩
  exact ⟨⟨enough, after, result, acyclic, same⟩, (failure 1 _ rfl).1⟩

end HornLoops.Bindings
