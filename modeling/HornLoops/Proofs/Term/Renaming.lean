import HornLoops.Loop.Plan
import HornLoops.Proofs.Term.Substitution

/-!
# Renaming and normal forms

Renumbering variables one to one changes neither the order in which they first occur nor, therefore, anything
that is in normal form: clauses, templates and iterations of variants are equal. Conversely terms with equal
normal forms are renamings of each other.
-/

namespace HornLoops

/-- Whether a renumbering gives different numbers to the members of a list. -/
def InjectiveOn (number : Nat → Nat) (ids : List Nat) : Prop :=
  ∀ left ∈ ids, ∀ right ∈ ids, number left = number right → left = right

theorem InjectiveOn.mono {number : Nat → Nat} {few many : List Nat} (injective : InjectiveOn number many)
    (subset : ∀ id ∈ few, id ∈ many) : InjectiveOn number few :=
  fun left memberLeft right memberRight =>
    injective left (subset left memberLeft) right (subset right memberRight)

/-- What is found in a table is an entry. -/
theorem mem_of_lookup_eq_some {α β : Type} [BEq α] [LawfulBEq α] {entries : List (α × β)} {key : α} {value : β}
    (found : entries.lookup key = some value) : (key, value) ∈ entries := by
  obtain ⟨early, late, shape, _⟩ := List.lookup_eq_some_iff.mp found
  simp [shape]

namespace VarSet

variable {number : Nat → Nat} {set : VarSet} {id : Nat} {ids : List Nat}

theorem mem_insert {other : Nat} : other ∈ set.insert id ↔ other ∈ set ∨ other = id := by
  by_cases member : id ∈ set
  · rw [insert, if_pos member, iff_self_or]
    rintro rfl
    exact member
  · rw [insert, if_neg member]
    simp

@[simp] theorem mem_extend : id ∈ set.extend ids ↔ id ∈ set ∨ id ∈ ids := by
  induction ids generalizing set with
  | nil => simp [extend]
  | cons head tail ih =>
    have step : set.extend (head :: tail) = (set.insert head).extend tail := rfl
    rw [step, ih, mem_insert, List.mem_cons, or_assoc]

@[simp] theorem mem_ofList : id ∈ ofList ids ↔ id ∈ ids := by
  simp [ofList]

theorem nodup_insert (distinct : set.Nodup) (id : Nat) : (set.insert id).Nodup := by
  by_cases member : id ∈ set
  · rwa [insert, if_pos member]
  · rw [insert, if_neg member]
    refine List.nodup_append.mpr ⟨distinct, by simp, ?_⟩
    rintro other inside _ last rfl
    rw [List.mem_singleton.mp last] at inside
    exact member inside

theorem nodup_extend (distinct : set.Nodup) (ids : List Nat) : (set.extend ids).Nodup := by
  induction ids generalizing set with
  | nil => exact distinct
  | cons head tail ih => exact ih (nodup_insert distinct head)

theorem nodup_ofList (ids : List Nat) : (ofList ids).Nodup := nodup_extend List.nodup_nil ids

theorem extend_eq_append (distinct : (set ++ ids).Nodup) : set.extend ids = set ++ ids := by
  induction ids generalizing set with
  | nil => simp [extend]
  | cons head tail ih =>
    have regroup : set ++ head :: tail = set ++ [head] ++ tail := by simp
    have new : head ∉ set := fun member => (List.nodup_append.mp distinct).2.2 head member head (by simp) rfl
    have step : set.extend (head :: tail) = (set.insert head).extend tail := rfl
    rw [step, insert, if_neg new, ih (regroup ▸ distinct), regroup]

/-- A list without repetitions is the ordered set of its members. -/
theorem ofList_eq_self (distinct : ids.Nodup) : ofList ids = ids := extend_eq_append distinct

/-- One-to-one renumbering keeps the order of first appearances. -/
theorem map_extend (injective : InjectiveOn number (set ++ ids)) :
    (set.extend ids).map number = VarSet.extend (set.map number) (ids.map number) := by
  induction ids generalizing set with
  | nil => rfl
  | cons head tail ih =>
    have step : (set.insert head).map number = VarSet.insert (set.map number) (number head) := by
      have same : number head ∈ set.map number ↔ head ∈ set := by
        rw [List.mem_map]
        constructor
        · rintro ⟨other, member, equal⟩
          rwa [← injective other (by simp [member]) head (by simp) equal]
        · intro member
          exact ⟨head, member, rfl⟩
      by_cases member : head ∈ set
      · rw [insert, insert, if_pos member, if_pos (same.mpr member)]
      · rw [insert, insert, if_neg member, if_neg fun inside => member (same.mp inside), List.map_append]
        rfl
    have rest : InjectiveOn number (set.insert head ++ tail) := by
      apply injective.mono
      intro id member
      simp only [List.mem_append, mem_insert, List.mem_cons] at member ⊢
      tauto
    have unfolded : set.extend (head :: tail) = (set.insert head).extend tail := rfl
    rw [unfolded, ih rest, step]
    rfl

theorem map_ofList (injective : InjectiveOn number ids) : (ofList ids).map number = ofList (ids.map number) :=
  map_extend (by simpa using injective)

end VarSet

/-- One-to-one renumbering keeps positions. -/
theorem InjectiveOn.idxOf_map {number : Nat → Nat} {ids : List Nat} (injective : InjectiveOn number ids)
    {id : Nat} (member : id ∈ ids) : (ids.map number).idxOf (number id) = ids.idxOf id := by
  induction ids with
  | nil => simp at member
  | cons head tail ih =>
    rw [List.map_cons, List.idxOf_cons, List.idxOf_cons]
    by_cases same : head = id
    · simp [same]
    · have differ : number head ≠ number id := by
        intro equal
        exact same (injective head (by simp) id member equal)
      have member' : id ∈ tail := by
        rcases List.mem_cons.mp member with rfl | member
        · exact absurd rfl same
        · exact member
      have rest : InjectiveOn number tail := injective.mono fun _ => List.mem_cons_of_mem _
      rw [beq_false_of_ne differ, beq_false_of_ne same, ih rest member']

namespace Term

@[simp] theorem rename_var (number : Nat → Nat) (id : Nat) : (var id).rename number = var (number id) := rfl

@[simp] theorem rename_int (number : Nat → Nat) (value : Int64) :
    (int value).rename number = int value := rfl

@[simp] theorem rename_atom (number : Nat → Nat) (name : String) :
    (atom name).rename number = atom name := rfl

@[simp] theorem rename_truth (number : Nat → Nat) : truth.rename number = truth := rfl

@[simp] theorem rename_compound (number : Nat → Nat) (name : String) (first : Term) (rest : List Term) :
    (compound name first rest).rename number =
      compound name (first.rename number) (rest.map (rename number)) :=
  subst_compound _ _ _ _

@[simp] theorem occurrences_rename (number : Nat → Nat) (term : Term) :
    (term.rename number).occurrences = term.occurrences.map number := by
  induction term with
  | var id => rfl
  | int value => rfl
  | atom name => rfl
  | compound name first rest ihFirst ihRest =>
    rw [rename_compound, occurrences_compound, occurrences_compound, List.map_append, ihFirst,
      List.map_flatMap, List.flatMap_map]
    congr 1
    exact List.flatMap_congr ihRest

theorem occurrencesAll_rename (number : Nat → Nat) (terms : List Term) :
    occurrencesAll (terms.map (rename number)) = (occurrencesAll terms).map number := by
  simp [List.flatMap_map, List.map_flatMap]

/-- Two renamings after each other are one. -/
theorem rename_rename (outer inner : Nat → Nat) (term : Term) :
    (term.rename inner).rename outer = term.rename fun id => outer (inner id) :=
  subst_subst _ _ term

variable {number : Nat → Nat} {id : Nat} {term : Term} {terms : List Term}

/-- Only the numbers of the variables that occur matter. -/
theorem rename_congr {left right : Nat → Nat} (same : ∀ id ∈ term.occurrences, left id = right id) :
    term.rename left = term.rename right :=
  subst_congr fun id occurs => congrArg var (same id occurs)

theorem rename_eq_self (kept : ∀ id ∈ term.occurrences, number id = id) : term.rename number = term :=
  subst_eq_self fun id occurs => congrArg var (kept id occurs)

theorem rename_unary (number : Nat → Nat) (name : String) (inner : Term) :
    (unary name inner).rename number = unary name (inner.rename number) := by
  simp [unary]

theorem rename_binary (number : Nat → Nat) (name : String) (left right : Term) :
    (binary name left right).rename number = binary name (left.rename number) (right.rename number) :=
  subst_binary _ name left right

@[simp] theorem rename_build (number : Nat → Nat) (name : String) (args : List Term) :
    (build name args).rename number = build name (args.map (rename number)) :=
  subst_build _ name args

@[simp] theorem mem_vars : id ∈ term.vars ↔ id ∈ term.occurrences :=
  VarSet.mem_ofList

@[simp] theorem mem_varsAll : id ∈ varsAll terms ↔ ∃ term ∈ terms, id ∈ term.occurrences := by
  simp [varsAll]

theorem forall_mem_rename {holds : Nat → Prop} (all : ∀ id ∈ term.occurrences, holds (number id)) :
    ∀ id ∈ (term.rename number).occurrences, holds id := by
  rw [occurrences_rename]
  exact List.forall_mem_map.mpr all

/-- Terms in joint normal form have their variables numbered from zero on. -/
theorem below_rename_idxOf (member : term ∈ terms) :
    (term.rename (varsAll terms).idxOf).Below (varsAll terms).length :=
  forall_mem_rename fun _ occurs => List.idxOf_lt_length_of_mem (mem_varsAll.mpr ⟨term, member, occurs⟩)

theorem nodup_vars (term : Term) : term.vars.Nodup := VarSet.nodup_ofList _

theorem nodup_varsAll (terms : List Term) : (varsAll terms).Nodup := VarSet.nodup_ofList _

theorem vars_rename (injective : InjectiveOn number term.occurrences) :
    (term.rename number).vars = term.vars.map number := by
  rw [vars, vars, occurrences_rename, VarSet.map_ofList injective]

theorem varsAll_rename (injective : InjectiveOn number (occurrencesAll terms)) :
    varsAll (terms.map (rename number)) = (varsAll terms).map number := by
  rw [varsAll, varsAll, occurrencesAll_rename, VarSet.map_ofList injective]

/-- Numbering by the place of the first occurrence undoes any renaming. -/
theorem rename_idxOf_map {ids : List Nat} (injective : InjectiveOn number ids)
    (inside : ∀ id ∈ term.occurrences, id ∈ ids) :
    (term.rename number).rename (ids.map number).idxOf = term.rename ids.idxOf := by
  rw [rename_rename]
  exact rename_congr fun id occurs => injective.idxOf_map (inside id occurs)

/-- Variants have equal normal forms. -/
theorem normalize_rename (injective : InjectiveOn number term.occurrences) :
    (term.rename number).normalize = term.normalize := by
  rw [normalize, normalize, vars_rename injective, List.length_map,
    rename_idxOf_map (injective.mono fun id member => mem_vars.mp member) fun id occurs => mem_vars.mpr occurs]

/-- Terms with equal normal forms are renamings of each other. -/
theorem exists_rename_of_normalize_eq {left right : Term} (same : left.normalize = right.normalize) :
    ∃ number, InjectiveOn number left.occurrences ∧ left.rename number = right := by
  simp only [normalize, NormalForm.mk.injEq] at same
  obtain ⟨terms, length⟩ := same
  have inside : ∀ id ∈ left.occurrences, left.vars.idxOf id < right.vars.length := by
    intro id occurs
    rw [← length]
    exact List.idxOf_lt_length_of_mem (mem_vars.mpr occurs)
  refine ⟨fun id => right.vars.getD (left.vars.idxOf id) 0, ?_, ?_⟩
  · intro one occurs other occurs' equal
    have insideOne := inside one occurs
    have insideOther := inside other occurs'
    simp only [List.getD_eq_getElem _ _ insideOne, List.getD_eq_getElem _ _ insideOther] at equal
    have position := (List.Nodup.getElem_inj_iff (nodup_vars right)).mp equal
    exact (List.idxOf_inj (mem_vars.mpr occurs)).mp position
  · have back : right.rename (fun id => right.vars.getD (right.vars.idxOf id) 0) = right := by
      apply rename_eq_self
      intro id occurs
      have member : right.vars.idxOf id < right.vars.length :=
        List.idxOf_lt_length_of_mem (mem_vars.mpr occurs)
      rw [List.getD_eq_getElem _ _ member, List.getElem_idxOf]
    have front : left.rename (fun id => right.vars.getD (left.vars.idxOf id) 0) =
        (left.rename left.vars.idxOf).rename fun index => right.vars.getD index 0 :=
      (rename_rename (fun index => right.vars.getD index 0) left.vars.idxOf left).symm
    rw [front, terms, rename_rename, back]

end Term

/-- Variants have equal clauses. -/
theorem Clause.ofTerms_rename {number : Nat → Nat} (head body : Term)
    (injective : InjectiveOn number (head.occurrences ++ body.occurrences)) :
    Clause.ofTerms (head.rename number) (body.rename number) = Clause.ofTerms head body := by
  have vars : Term.varsAll ([head, body].map (Term.rename number)) =
      (Term.varsAll [head, body]).map number := Term.varsAll_rename (by simpa using injective)
  rw [List.map_cons, List.map_singleton] at vars
  have distinct : InjectiveOn number (Term.varsAll [head, body]) :=
    injective.mono (by simp)
  rw [ofTerms, ofTerms, vars, List.length_map,
    Term.rename_idxOf_map distinct fun id occurs => Term.mem_varsAll.mpr ⟨head, by simp, occurs⟩,
    Term.rename_idxOf_map distinct fun id occurs => Term.mem_varsAll.mpr ⟨body, by simp, occurs⟩]

end HornLoops
