import HornLoops.Proofs.Loop.Counterpart
import HornLoops.Proofs.Machine.Copying

/-!
# What a store says

The state of a run is told by the solutions of its store. From outside only the variables below a limit are seen, so a
state is described by the values that the terms at hand can have for given values of these variables. Such descriptions
are exact: a store has no other solutions, and it has all of these. Matching the arguments of a call with a copy of a
head leads from a description of the arguments to one of the copied variables, goals narrow it down, and the arguments
of the next call are described in terms of it.
-/

namespace HornLoops

/-- Copies have the values of the originals under the values of the copied variables. -/
theorem Term.map_subst_rename (solution : Nat → Term) (number : Nat → Nat) (terms : List Term) :
    (terms.map (Term.rename number)).map (Term.subst solution) =
      terms.map (Term.subst fun id => solution (number id)) := by
  rw [List.map_map]
  exact List.map_congr_left fun term _ => Term.subst_rename solution number term

theorem Term.subst_listBefore (replace : Nat → Term) (items : List Term) (tail : Term) :
    (listBefore items tail).subst replace = listBefore (items.map (subst replace)) (tail.subst replace) := by
  induction items with
  | nil => rfl
  | cons item items ih =>
    show (cons item (listBefore items tail)).subst replace =
      cons (item.subst replace) (listBefore (items.map (subst replace)) (tail.subst replace))
    rw [← ih]
    simp [cons, binary]

theorem Term.subst_list (replace : Nat → Term) (items : List Term) :
    (list items).subst replace = list (items.map (subst replace)) := subst_listBefore replace items nil

theorem Term.mem_occurrences_list {items : List Term} {id : Nat} :
    id ∈ (list items).occurrences ↔ ∃ item ∈ items, id ∈ item.occurrences := by
  induction items with
  | nil => simp [list, listBefore, nil]
  | cons first rest ih =>
    have shape : (list (first :: rest)).occurrences = first.occurrences ++ (list rest).occurrences := by
      simp [list, listBefore, cons, binary]
    rw [shape, List.mem_append, ih, List.exists_mem_cons_iff]

theorem Term.occurrences_list {items : List Term} (ground : ∀ item ∈ items, item.occurrences = []) :
    (list items).occurrences = [] := by
  refine List.eq_nil_iff_forall_not_mem.mpr fun id occurs => ?_
  obtain ⟨item, member, occurs⟩ := mem_occurrences_list.mp occurs
  rw [ground item member] at occurs
  cases occurs

namespace Bindings

/-! ## Descriptions -/

/-- The solutions of a store give some terms exactly the values that are related to those of the variables below a
limit. -/
structure Relates (bindings : Bindings) (limit : Nat) (terms : List Term)
    (relation : (Nat → Term) → List Term → Prop) : Prop where
  /-- The store is well formed. -/
  formed : bindings.WellFormed
  /-- The variables below the limit are in the store. -/
  around : limit ≤ bindings.size
  /-- The terms are terms over the variables of the store. -/
  below : bindings.AllBelow terms
  /-- All solutions are related. -/
  sound : ∀ solution, bindings.Satisfies solution → relation solution (terms.map (Term.subst solution))
  /-- All that is related is a solution. -/
  complete : ∀ outer values, relation outer values → ∃ solution, bindings.Satisfies solution ∧
    (∀ id < limit, solution id = outer id) ∧ terms.map (Term.subst solution) = values

/-- The solutions of a store give some variables, which have numbers in it, exactly the values of which a fact holds for
those of the variables below a limit. -/
structure Scope (bindings : Bindings) (limit : Nat) (names : List Nat) (number : Nat → Nat)
    (fact : (Nat → Term) → (Nat → Term) → Prop) : Prop where
  /-- The store is well formed. -/
  formed : bindings.WellFormed
  /-- The variables below the limit are in the store. -/
  around : limit ≤ bindings.size
  /-- So are the variables with names. -/
  below : ∀ id ∈ names, number id < bindings.size
  /-- The fact holds for all solutions. -/
  sound : ∀ solution, bindings.Satisfies solution → fact solution fun id => solution (number id)
  /-- All that the fact holds for is a solution. -/
  complete : ∀ outer value, fact outer value → ∃ solution, bindings.Satisfies solution ∧
    (∀ id < limit, solution id = outer id) ∧ ∀ id ∈ names, solution (number id) = value id

/-- The solutions of a store give the variables below a limit exactly the values of which a fact holds. -/
structure Tells (bindings : Bindings) (limit : Nat) (fact : (Nat → Term) → Prop) : Prop where
  /-- The store is well formed. -/
  formed : bindings.WellFormed
  /-- The variables below the limit are in the store. -/
  around : limit ≤ bindings.size
  /-- The fact holds for all solutions. -/
  sound : ∀ solution, bindings.Satisfies solution → fact solution
  /-- All that the fact holds for is a solution. -/
  complete : ∀ outer, fact outer → ∃ solution, bindings.Satisfies solution ∧ ∀ id < limit, solution id = outer id

/-- Values that stand in a relation can match a head up to a place where they can always be told apart from it. -/
def Clash (relation : (Nat → Term) → List Term → Prop) (params : List Term) : Prop :=
  ∃ early left late, params = early ++ left :: late ∧
    (∃ outer value values, relation outer values ∧ early.map (Term.subst value) = values.take early.length) ∧
    ∀ (outer value : Nat → Term) (values : List Term), relation outer values →
      early.map (Term.subst value) = values.take early.length →
        ∃ right, values[early.length]? = some right ∧ Apart (left.subst value) right

/-- Values can be told apart from a head at the first place. -/
theorem Clash.first {relation : (Nat → Term) → List Term → Prop} {left : Term} {late : List Term}
    (possible : ∃ outer values, relation outer values)
    (apart : ∀ (outer value : Nat → Term) (values : List Term), relation outer values →
      ∃ right rest, values = right :: rest ∧ Apart (left.subst value) right) : Clash relation (left :: late) := by
  obtain ⟨outer, values, related⟩ := possible
  refine ⟨[], left, late, rfl, ⟨outer, Term.var, values, related, rfl⟩, fun outer value values related _ => ?_⟩
  obtain ⟨right, rest, rfl, differ⟩ := apart outer value values related
  exact ⟨right, rfl, differ⟩

/-- An empty list is not one with items. -/
theorem apart_nil_cons (value : Nat → Term) (head tail : Term) : Apart (Term.nil.subst value) (.cons head tail) := by
  refine ⟨rfl, rfl, ?_, .inl rfl⟩
  simp [Term.nil, Term.cons, Term.binary]

variable {bindings : Bindings} {limit : Nat}

/-- Unifying terms narrows down what is known to the values for which the terms are equal. -/
theorem exists_scope (fact : (Nat → Term) → (Nat → Term) → Prop) (formed : bindings.WellFormed)
    (around : limit ≤ bindings.size) {lefts rights : List Term} (belowLefts : bindings.AllBelow lefts)
    (belowRights : bindings.AllBelow rights) {names : List Nat} {number : Nat → Nat}
    (below : ∀ id ∈ names, number id < bindings.size)
    (sound : ∀ solution, bindings.Satisfies solution →
      lefts.map (Term.subst solution) = rights.map (Term.subst solution) → fact solution fun id => solution (number id))
    (complete : ∀ outer value, fact outer value → ∃ solution, bindings.Satisfies solution ∧
      lefts.map (Term.subst solution) = rights.map (Term.subst solution) ∧ (∀ id < limit, solution id = outer id) ∧
      ∀ id ∈ names, solution (number id) = value id) {outer value : Nat → Term} (possible : fact outer value) :
    ∃ after enough, bindings.Grown after ∧
      (∀ fuel ≥ enough, bindings.unifyAll fuel lefts rights = (some true, after)) ∧ after.Scope limit names number fact := by
  obtain ⟨solution, satisfies, same, _⟩ := complete outer value possible
  obtain ⟨after, enough, equated, unified⟩ := exists_equated formed belowLefts belowRights satisfies same
  refine ⟨after, enough, equated.grown, unified, equated.formed, Nat.le_trans around equated.grown.1, ?_, ?_, ?_⟩
  · exact fun id member => Nat.lt_of_lt_of_le (below id member) equated.grown.1
  · intro solution satisfies
    obtain ⟨satisfies', same'⟩ := (equated.solutions solution).mp satisfies
    exact sound solution satisfies' same'
  · intro outer value holds
    obtain ⟨solution, satisfies, same, found⟩ := complete outer value holds
    exact ⟨solution, (equated.solutions solution).mpr ⟨satisfies, same⟩, found⟩

/-! ## Calls -/

namespace Relates

variable {args : List Term} {relation : (Nat → Term) → List Term → Prop}
  (relates : bindings.Relates limit args relation)
include relates

/-- A relation can be told in other words. -/
theorem congr {relation' : (Nat → Term) → List Term → Prop}
    (same : ∀ outer values, relation outer values ↔ relation' outer values) : bindings.Relates limit args relation' :=
  { relates with
    sound := fun solution satisfies => (same _ _).mp (relates.sound solution satisfies)
    complete := fun outer values related => relates.complete outer values ((same _ _).mpr related) }

theorem reserve (size : Nat) : (bindings.reserve size).Relates limit args relation where
  formed := relates.formed.reserve size
  around := Nat.le_trans relates.around (Grown.reserve bindings size).1
  below := relates.below.mono (Grown.reserve bindings size).1
  sound solution satisfies := relates.sound solution (satisfies_reserve.mp satisfies)
  complete outer values related := by
    obtain ⟨solution, satisfies, found⟩ := relates.complete outer values related
    exact ⟨solution, satisfies_reserve.mpr satisfies, found⟩

variable {outer : Nat → Term} {names : List Nat} {params : List Term}

/-- What is related can be extended to a copy of some variables, which may have any values. -/
theorem exists_extension {values : List Term} (related : relation outer values) (names : List Nat)
    (value : Nat → Term) :
    ∃ solution, (bindings.reserve (bindings.size + names.length)).Satisfies solution ∧
      (∀ id < limit, solution id = outer id) ∧ args.map (Term.subst solution) = values ∧
      ∀ id ∈ names, solution (copyNumber names bindings.size id) = value id := by
  obtain ⟨solution, satisfies, around, valued⟩ := relates.complete outer values related
  obtain ⟨extended, satisfies', same, copied⟩ := relates.formed.exists_extension satisfies names value
  refine ⟨extended, satisfies_reserve.mpr satisfies', fun id inside => ?_, ?_, copied⟩
  · rw [same id (Nat.lt_of_lt_of_le inside relates.around), around id inside]
  · rw [relates.below.map_subst same, valued]

theorem below_reserve (size : Nat) : (bindings.reserve size).AllBelow args :=
  relates.below.mono (Grown.reserve bindings size).1

variable (known : ∀ term ∈ params, ∀ id ∈ term.occurrences, id ∈ names)
include known

omit relates in
/-- Copies are terms over the variables that were reserved for them. -/
theorem allBelow_copy : (bindings.reserve (bindings.size + names.length)).AllBelow
    (params.map (Term.rename (copyNumber names bindings.size))) := by
  intro term member
  obtain ⟨original, inside, rfl⟩ := List.mem_map.mp member
  rw [size_reserve]
  exact (below_copy (known original inside)).mono (Nat.le_max_right _ _)

/-- Arguments that can match a head are unified with its copy. Afterwards the copied variables have all the values for
which the head is related. -/
theorem matching {value : Nat → Term} (possible : relation outer (params.map (Term.subst value))) :
    ∃ after enough, (bindings.reserve (bindings.size + names.length)).Grown after ∧
      (∀ fuel ≥ enough, (bindings.reserve (bindings.size + names.length)).unifyAll fuel
        (params.map (Term.rename (copyNumber names bindings.size))) args = (some true, after)) ∧
      after.Scope limit names (copyNumber names bindings.size)
        fun outer value => relation outer (params.map (Term.subst value)) := by
  refine exists_scope _ (relates.formed.reserve _) (Nat.le_trans relates.around (Grown.reserve bindings _).1)
    (allBelow_copy known) (relates.below_reserve _) (fun id member => ?_) (fun solution satisfies same => ?_)
    (fun outer value related => ?_) possible
  · have position := List.idxOf_lt_length_of_mem member
    rw [size_reserve, copyNumber]
    omega
  · have related := relates.sound solution (satisfies_reserve.mp satisfies)
    rwa [← same, Term.map_subst_rename] at related
  · obtain ⟨solution, satisfies, around, valued, copied⟩ := relates.exists_extension related names value
    exact ⟨solution, satisfies, by rw [map_subst_copy known copied, valued], around, copied⟩

/-- Arguments that clash with a head leave no trace. -/
theorem clashes (clash : Clash relation params) :
    ∃ enough, ∀ fuel ≥ enough, (bindings.reserve (bindings.size + names.length)).unifyAll fuel
        (params.map (Term.rename (copyNumber names bindings.size))) args =
      (some false, bindings.reserve (bindings.size + names.length)) := by
  obtain ⟨early, left, late, rfl, ⟨outer, value, values, related, matched⟩, apart⟩ := clash
  let number := copyNumber names bindings.size
  obtain ⟨solution, satisfies, _, valued, copied⟩ := relates.exists_extension related names value
  -- The arguments are cut where the head is cut.
  obtain ⟨right, found, _⟩ := apart outer value values related matched
  obtain ⟨short, _⟩ := List.getElem?_eq_some_iff.mp found
  have long : early.length < args.length := by
    rw [← valued, List.length_map] at short
    exact short
  obtain ⟨front, argument, back, rfl, cut⟩ : ∃ front argument back, args = front ++ argument :: back ∧
      front.length = early.length :=
    ⟨args.take early.length, args[early.length], args.drop (early.length + 1),
      by rw [List.getElem_cons_drop, List.take_append_drop], by simp; omega⟩
  have belowCopy : (bindings.reserve (bindings.size + names.length)).AllBelow
      ((early ++ left :: late).map (Term.rename number)) := allBelow_copy known
  have belowArgs := relates.below_reserve (bindings.size + names.length)
  rw [List.map_append, List.map_cons] at belowCopy ⊢
  have knownEarly : ∀ term ∈ early, ∀ id ∈ term.occurrences, id ∈ names :=
    fun term member => known term (by simp [member])
  have prefixed (solution : Nat → Term) : ((front ++ argument :: back).map (Term.subst solution)).take early.length =
      front.map (Term.subst solution) := by
    rw [List.map_append, List.take_left' (by simpa using cut)]
  refine exists_unifyAll_apart (relates.formed.reserve _) belowCopy belowArgs satisfies ?_ ?_
  · rw [map_subst_copy knownEarly copied, matched, ← valued, prefixed]
  · intro solution satisfies same
    have related' := relates.sound solution (satisfies_reserve.mp satisfies)
    obtain ⟨right, found, apart⟩ := apart solution (fun id => solution (number id)) _ related' (by
      rw [prefixed, ← same, Term.map_subst_rename])
    have here : ((front ++ argument :: back).map (Term.subst solution))[early.length]? =
        some (argument.subst solution) := by
      rw [← cut, List.map_append, List.getElem?_append_right (by simp)]
      simp
    rw [here, Option.some.injEq] at found
    rw [Term.subst_rename, found]
    exact apart

end Relates

/-! ## Goals -/

namespace Scope

variable {names : List Nat} {number : Nat → Nat} {fact : (Nat → Term) → (Nat → Term) → Prop}

variable {id : Nat} {outer value : Nat → Term} {term : Term}

/-- The values of copied terms are told by those of the copied variables. -/
theorem subst_eq (known : ∀ id ∈ term.occurrences, id ∈ names) {solution : Nat → Term}
    (valued : ∀ id ∈ names, solution (number id) = value id) :
    (term.rename number).subst solution = term.subst value := by
  rw [Term.subst_rename]
  exact Term.subst_congr fun id occurs => valued id (known id occurs)

variable (scope : bindings.Scope limit names number fact)
include scope

theorem below_rename (known : ∀ id ∈ term.occurrences, id ∈ names) : (term.rename number).Below bindings.size :=
  Term.forall_mem_rename fun id occurs => scope.below id (known id occurs)

/-- A fact can be told in other words. -/
theorem congr {fact' : (Nat → Term) → (Nat → Term) → Prop}
    (same : ∀ outer value, fact outer value ↔ fact' outer value) : bindings.Scope limit names number fact' :=
  { scope with
    sound := fun solution satisfies => (same _ _).mp (scope.sound solution satisfies)
    complete := fun outer value holds => scope.complete outer value ((same _ _).mpr holds) }

theorem acyclic (holds : fact outer value) : bindings.Acyclic := by
  obtain ⟨solution, satisfies, _⟩ := scope.complete outer value holds
  exact scope.formed.acyclic_of_satisfies satisfies

/-- Terms that can have the same value are unified, and this is known afterwards. -/
theorem equates {left right : Term} (knownLeft : ∀ id ∈ left.occurrences, id ∈ names)
    (knownRight : ∀ id ∈ right.occurrences, id ∈ names) (holds : fact outer value)
    (possible : left.subst value = right.subst value) :
    ∃ after enough, bindings.Grown after ∧
      (∀ fuel ≥ enough, bindings.unifyAll fuel [left.rename number] [right.rename number] = (some true, after)) ∧
      after.Scope limit names number fun outer value => fact outer value ∧ left.subst value = right.subst value := by
  refine exists_scope _ scope.formed scope.around (List.forall_mem_singleton.mpr (scope.below_rename knownLeft))
    (List.forall_mem_singleton.mpr (scope.below_rename knownRight)) scope.below (fun solution satisfies same => ?_)
    (fun outer value ⟨holds, same⟩ => ?_) ⟨holds, possible⟩
  · rw [List.map_singleton, List.map_singleton, Term.subst_rename, Term.subst_rename] at same
    exact ⟨scope.sound solution satisfies, List.singleton_inj.mp same⟩
  · obtain ⟨solution, satisfies, around, valued⟩ := scope.complete outer value holds
    refine ⟨solution, satisfies, ?_, around, valued⟩
    rw [List.map_singleton, List.map_singleton, subst_eq knownLeft valued, subst_eq knownRight valued, same]

/-- An expression has the value that the fact tells. -/
theorem eval_eq (holds : fact outer value) {expression : Term} {result : Arithmetic.Value}
    (valued : ∀ outer value, fact outer value →
      Arithmetic.evalWith (fun _ => .error .unbound) (expression.subst value) = result) :
    bindings.eval (expression.rename number) = result := by
  have satisfies := (scope.acyclic holds).satisfies_resolve
  rw [Bindings.eval_eq, resolve_eq_subst, Term.subst_rename]
  exact valued _ _ (scope.sound _ satisfies)

/-- A variable that can be an atom and can be an integer is unbound. -/
theorem isVar_walk (known : id ∈ names) {outer' value' : Nat → Term} (holds : fact outer value)
    (atom : value id = .nil) (holds' : fact outer' value') (integer : value' id = .int 0) :
    (bindings.walk (.var (number id))).isVar = true := by
  obtain ⟨solution, satisfies, _, valued⟩ := scope.complete outer value holds
  obtain ⟨solution', satisfies', _, valued'⟩ := scope.complete outer' value' holds'
  have one := satisfies.subst_walk (.var (number id))
  have other := satisfies'.subst_walk (.var (number id))
  rw [Term.subst_var, valued id known, atom] at one
  rw [Term.subst_var, valued' id known, integer] at other
  cases ending : bindings.walk (.var (number id)) with
  | var last => rfl
  | int word => simp [ending, Term.nil] at one
  | atom name => simp [ending] at other
  | compound name first rest => simp [ending] at other

/-- A variable has the value that the fact tells. -/
theorem fixes (valued : ∀ outer value, fact outer value → value id = term) : bindings.Fixes (.var (number id)) term := by
  intro solution satisfies
  exact valued _ _ (scope.sound solution satisfies)

/-- The arguments of a call are related as far as the fact tells. -/
theorem relates {terms : List Term} (known : ∀ term ∈ terms, ∀ id ∈ term.occurrences, id ∈ names)
    {relation : (Nat → Term) → List Term → Prop}
    (sound : ∀ outer value, fact outer value → relation outer (terms.map (Term.subst value)))
    (complete : ∀ outer values, relation outer values → ∃ value, fact outer value ∧ terms.map (Term.subst value) = values) :
    bindings.Relates limit (terms.map (Term.rename number)) relation where
  formed := scope.formed
  around := scope.around
  below term member := by
    obtain ⟨original, inside, rfl⟩ := List.mem_map.mp member
    exact scope.below_rename (known original inside)
  sound solution satisfies := by
    rw [Term.map_subst_rename]
    exact sound _ _ (scope.sound solution satisfies)
  complete outer values related := by
    obtain ⟨value, holds, valued⟩ := complete outer values related
    obtain ⟨solution, satisfies, around, same⟩ := scope.complete outer value holds
    refine ⟨solution, satisfies, around, ?_⟩
    rw [← valued, List.map_map]
    exact List.map_congr_left fun term member => subst_eq (known term member) same

/-- What is known of the variables below the limit. -/
theorem tells {known : (Nat → Term) → Prop}
    (same : ∀ outer, known outer ↔ ∃ value, fact outer value) : bindings.Tells limit known where
  formed := scope.formed
  around := scope.around
  sound solution satisfies := (same solution).mpr ⟨_, scope.sound solution satisfies⟩
  complete outer holds := by
    obtain ⟨value, holds⟩ := (same outer).mp holds
    obtain ⟨solution, satisfies, around, _⟩ := scope.complete outer value holds
    exact ⟨solution, satisfies, around⟩

/-- Nothing is known about variables that are taken, which have numbers from some number on. -/
theorem taking {next : Nat}
    (early : ∀ outer value value', (∀ id < next, value id = value' id) → fact outer value → fact outer value')
    (count : Nat) {size : Nat} (room : bindings.size + count ≤ size) :
    (bindings.reserve size).Scope limit (names.filter (· < next) ++ List.range' next count)
      (shift number next bindings.size) fact where
  formed := scope.formed.reserve size
  around := Nat.le_trans scope.around (Grown.reserve bindings size).1
  below id member := by
    rw [size_reserve]
    rcases List.mem_append.mp member with member | member
    · obtain ⟨member, old⟩ := List.mem_filter.mp member
      rw [shift_of_lt (by simpa using old)]
      exact Nat.lt_of_lt_of_le (scope.below id member) (Nat.le_max_left _ _)
    · rw [List.mem_range'_1] at member
      rw [shift_of_le member.1]
      exact Nat.lt_of_lt_of_le (by omega) (Nat.le_max_right _ _)
  sound solution satisfies := by
    have holds := scope.sound solution (satisfies_reserve.mp satisfies)
    refine early solution _ _ (fun id old => ?_) holds
    rw [shift_of_lt old]
  complete outer value holds := by
    obtain ⟨solution, satisfies, around, same⟩ := scope.complete outer value holds
    let extended (id : Nat) : Term := if id < bindings.size then solution id else value (next + (id - bindings.size))
    have kept : ∀ id < bindings.size, extended id = solution id := fun id inside => if_pos inside
    refine ⟨extended, satisfies_reserve.mpr (scope.formed.satisfies_congr satisfies kept), ?_, fun id member => ?_⟩
    · intro id inside
      rw [kept id (Nat.lt_of_lt_of_le inside scope.around), around id inside]
    · rcases List.mem_append.mp member with member | member
      · obtain ⟨member, old⟩ := List.mem_filter.mp member
        rw [shift_of_lt (by simpa using old), kept _ (scope.below id member), same id member]
      · rw [List.mem_range'_1] at member
        have past : ¬ bindings.size + (id - next) < bindings.size := by omega
        have back : next + (bindings.size + (id - next) - bindings.size) = id := by omega
        rw [shift_of_le member.1]
        simp only [extended, if_neg past, back]

end Scope

end Bindings

end HornLoops
