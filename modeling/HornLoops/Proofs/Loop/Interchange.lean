import HornLoops.Proofs.Loop.Counterpart

/-!
# Stores can be interchanged

Procedures that two stores have for the same loop differ only in the procedures that their bodies call, and there the
difference is of the same kind.
-/

namespace HornLoops

/-! ## Procedures for the same loop -/

/-- The variables of a clause are numbered from zero on. -/
theorem Clause.below_ofTerms (head body : Term) :
    (ofTerms head body).head.Below (ofTerms head body).width ∧
      (ofTerms head body).body.Below (ofTerms head body).width :=
  ⟨Term.below_rename_idxOf (by simp), Term.below_rename_idxOf (by simp)⟩

variable {allowed : String → Prop} {number : Nat → Nat} {body body' : Term} {entries entries' : List ProcedureEntry}
  {threads : Threads} {spec : LoopSpec} {next after : Nat}

/-- Clauses whose heads have corresponding variables and whose bodies are counterparts are numbered alike. -/
theorem Clause.numbered_counterpart {paired : ProcedureEntry → ProcedureEntry → Prop} {head head' : Term}
    (heads : head'.occurrences = head.occurrences.map number)
    (counterpart : Counterpart (Renamed allowed number) paired body body')
    (injective : InjectiveOn number (head.occurrences ++ body.occurrences)) :
    Term.varsAll [head', body'] = (Term.varsAll [head, body]).map number ∧
      InjectiveOn number (Term.varsAll [head, body]) ∧
      Counterpart (Renamed allowed id) paired (ofTerms head body).body (ofTerms head' body').body := by
  have vars : Term.varsAll [head', body'] = (Term.varsAll [head, body]).map number := by
    rw [Term.varsAll, Term.varsAll, VarSet.map_ofList (by simpa using injective)]
    simp [heads, counterpart.occurrences_eq]
  have distinct : InjectiveOn number (Term.varsAll [head, body]) := injective.mono (by simp [Term.varsAll])
  refine ⟨vars, distinct, ?_⟩
  simp only [ofTerms, vars]
  refine counterpart.rename fun id occurs => ?_
  exact distinct.idxOf_map (Term.mem_varsAll.mpr ⟨body, by simp, occurs⟩)

/-- Clauses for two names whose bodies are counterparts have the same parameters, and bodies that are counterparts. -/
theorem Clause.ofTerms_counterpart (name name' : String) (params : List Term)
    (counterpart : Counterpart (Renamed allowed number) (SameLoop allowed entries entries') body body')
    (injective : InjectiveOn number (params.flatMap Term.occurrences ++ body.occurrences)) :
    (ofTerms (.build name params) body).head.args =
        (ofTerms (.build name' (params.map (Term.rename number))) body').head.args ∧
      (ofTerms (.build name params) body).width =
        (ofTerms (.build name' (params.map (Term.rename number))) body').width ∧
      Counterpart (Renamed allowed id) (SameLoop allowed entries entries') (ofTerms (.build name params) body).body
        (ofTerms (.build name' (params.map (Term.rename number))) body').body := by
  have heads : (Term.build name' (params.map (Term.rename number))).occurrences =
      (Term.build name params).occurrences.map number := by
    simp [List.flatMap_map, List.map_flatMap]
  obtain ⟨vars, distinct, bodies⟩ := numbered_counterpart heads counterpart (by simpa using injective)
  refine ⟨?_, ?_, bodies⟩
  · simp only [ofTerms, vars, Term.rename_build, Term.args_build, List.map_map]
    apply List.map_congr_left
    intro param member
    refine (Term.rename_idxOf_map distinct fun id occurs => Term.mem_varsAll.mpr ⟨.build name params, by simp, ?_⟩).symm
    rw [Term.occurrences_build]
    exact List.mem_flatMap.mpr ⟨param, member, occurs⟩
  · simp only [ofTerms, vars, List.length_map]

/-- Procedures that take the same arguments and have bodies that are counterparts. -/
structure Twins (allowed : String → Prop) (entries entries' : List ProcedureEntry) (left right : Procedure) : Prop where
  /-- They have the same number of arguments. -/
  arity : left.arity = right.arity
  /-- The same arguments end the loop. -/
  terminal : left.base.head.args = right.base.head.args
  /-- These have the same number of variables. -/
  breadth : left.base.width = right.base.width
  /-- The same arguments start an iteration. -/
  params : left.recursive.head.args = right.recursive.head.args
  /-- Iterations have the same number of variables. -/
  width : left.recursive.width = right.recursive.width
  /-- The bodies are counterparts. -/
  body : Counterpart (Renamed allowed id) (SameLoop allowed entries entries') left.recursive.body right.recursive.body
  /-- The arguments mention names that are allowed. -/
  mentions : Mentions allowed (left.base.head.args ++ left.recursive.head.args)

theorem Threads.context_rename {ids : List Nat} (injective : InjectiveOn number (threads.occurrences ++ ids))
    {id : Nat} (member : id ∈ ids) : number id ∈ (threads.rename number).context ↔ id ∈ threads.context := by
  have part : ∀ other ∈ Term.occurrencesAll (threads.head ++ threads.steps ++ threads.call),
      other ∈ threads.occurrences ++ ids := by
    intro other inside
    simp only [Term.occurrencesAll_eq_flatMap, List.flatMap_append, List.mem_append] at inside
    simp only [occurrences, Term.occurrencesAll_eq_flatMap, List.flatMap_append, List.mem_append]
    tauto
  have lists : (threads.rename number).head ++ (threads.rename number).steps ++ (threads.rename number).call =
      (threads.head ++ threads.steps ++ threads.call).map (Term.rename number) := by simp [rename]
  rw [context, context, lists, Term.varsAll, Term.varsAll, VarSet.mem_ofList, VarSet.mem_ofList,
    Term.occurrencesAll_rename]
  exact injective.mem_map (List.mem_append_right _ member) part

/-- Taking the variables of threads counts on. -/
theorem LoopSpec.le_of_threads (threaded : spec.threads next = .ok threads after) : next ≤ after := by
  obtain ⟨taken, rfl, _⟩ := spec.shifting_threads id next 0 threads after threaded
  omega

/-- All variables of threads are older than those that are taken after them. -/
theorem LoopSpec.lt_of_threads (threaded : spec.threads next = .ok threads after)
    (below : ∀ id ∈ spec.occurrences, id < next) {id : Nat} (occurs : id ∈ threads.occurrences) : id < after := by
  rcases spec.mem_occurrences_of_threads threaded occurs with old | new
  · exact Nat.lt_of_lt_of_le (below id old) (le_of_threads threaded)
  · exact new.2

theorem Threads.rename_congr {number' : Nat → Nat} (same : ∀ id ∈ threads.occurrences, number id = number' id) :
    threads.rename number = threads.rename number' := by
  have each {terms : List Term} (part : ∀ term ∈ terms, term ∈ threads.initial ++ threads.terminal ++
      threads.prelude ++ threads.head ++ threads.steps ++ threads.call) :
      terms.map (Term.rename number) = terms.map (Term.rename number') := by
    apply List.map_congr_left
    intro term member
    apply Term.rename_congr
    intro id occurs
    apply same
    rw [occurrences, Term.occurrencesAll_eq_flatMap]
    exact List.mem_flatMap.mpr ⟨term, part term member, occurs⟩
  simp only [rename, Threads.mk.injEq]
  exact ⟨each (by simp +contextual), each (by simp +contextual), each (by simp +contextual),
    each (by simp +contextual), each (by simp +contextual), each (by simp +contextual)⟩

theorem Threads.mem_occurrences_rename {id : Nat} (occurs : id ∈ threads.occurrences) :
    number id ∈ (threads.rename number).occurrences := by
  have lists : (threads.rename number).occurrences = threads.occurrences.map number := by
    rw [occurrences, occurrences, ← Term.occurrencesAll_rename]
    simp [rename]
  rw [lists]
  exact List.mem_map_of_mem occurs

/-- A counterpart of `true` is `true`. -/
theorem Counterpart.truth_iff (generated : Generated entries) (generated' : Generated entries') {goal goal' : Term}
    (counterpart : Counterpart (Renamed allowed number) (SameLoop allowed entries entries') goal goal') :
    goal = Term.truth ↔ goal' = Term.truth := by
  cases counterpart with
  | plain same => rw [same.2, Term.rename_eq_truth_iff]
  | modality => simp [Term.unary, Term.truth]
  | junction => simp [Term.binary, Term.truth]
  | call pair =>
    obtain ⟨given, name⟩ := generated _ pair.registered
    obtain ⟨given', name'⟩ := generated' _ pair.registered'
    rw [name, name']
    exact iff_of_false (Procedures.build_nameOf_ne_truth given _) (Procedures.build_nameOf_ne_truth given' _)

section

variable {allowed : String → Prop} (ordinary : Ordinary allowed) {entries entries' : List ProcedureEntry}
  (generated : Generated entries) (generated' : Generated entries')
include ordinary generated generated'

/-- Procedures that are made from variants of threads and from bodies that are counterparts are twins. -/
theorem Threads.twins {threads : Threads} (mentions : threads.Mentions allowed) {number : Nat → Nat}
    {body body' : Term} (counterpart : Counterpart (Renamed allowed number) (SameLoop allowed entries entries') body body')
    (injective : InjectiveOn number (threads.occurrences ++ body.occurrences)) {entry entry' : ProcedureEntry}
    (pair : SameLoop allowed entries entries' entry entry') :
    Twins allowed entries entries' (threads.procedure entry.procedure.name body)
      ((threads.rename number).procedure entry'.procedure.name body') := by
  have truth {number : Nat → Nat} : Renamed allowed number .truth .truth :=
    ⟨Term.named_atom.mpr (ordinary "true" (by decide)), rfl⟩
  have ends : Counterpart (Renamed allowed number) (SameLoop allowed entries entries') .truth .truth := .plain truth
  have base := Clause.ofTerms_counterpart entry.procedure.name entry'.procedure.name threads.terminal ends
    (injective.mono (by
      intro id occurs
      simp only [occurrences, Term.occurrencesAll_eq_flatMap, List.flatMap_append, List.mem_append]
      simp only [Term.truth, Term.occurrences_atom, List.append_nil] at occurs
      tauto))
  have call : Counterpart (Renamed allowed number) (SameLoop allowed entries entries') (.build entry.procedure.name threads.call)
      (.build entry'.procedure.name (threads.rename number).call) :=
    .call pair (Renamed.forall₂_map mentions.call)
  have bodies : Counterpart (Renamed allowed number) (SameLoop allowed entries entries')
      (.conjunction (threads.steps ++ [body, .build entry.procedure.name threads.call]))
      (.conjunction ((threads.rename number).steps ++
        [body', .build entry'.procedure.name (threads.rename number).call])) := by
    refine .conjunction truth (List.rel_append ((Renamed.forall₂_map mentions.steps).imp fun _ _ => .plain)
      (.cons counterpart (.cons call .nil))) (List.rel_append ?_ (.cons ?_ (.cons ?_ .nil)))
    · refine (Renamed.forall₂_map mentions.steps).imp fun goal goal' same => ?_
      rw [same.2, Term.rename_eq_truth_iff]
    · exact counterpart.truth_iff generated generated'
    · exact call.truth_iff generated generated'
  have recursive := Clause.ofTerms_counterpart entry.procedure.name entry'.procedure.name threads.head bodies
    (injective.mono (by
      intro id occurs
      simp only [occurrences, Term.occurrencesAll_eq_flatMap, List.flatMap_append, List.mem_append]
      simp only [Term.occurrences_conjunction, List.flatMap_append, List.flatMap_cons, List.flatMap_nil, List.append_nil,
        Term.occurrences_build, List.mem_append] at occurs
      tauto))
  refine ⟨by simp [procedure, arity, rename], base.1, base.2.1, recursive.1, recursive.2.1, recursive.2.2, ?_⟩
  simp only [procedure, Clause.ofTerms, Term.rename_build, Term.args_build, mentions_append]
  constructor <;> intro term member <;> obtain ⟨original, inside, rfl⟩ := List.mem_map.mp member
  · exact Term.named_rename.mpr (mentions.terminal original inside)
  · exact Term.named_rename.mpr (mentions.head original inside)

/-- Procedures with the same signature are twins. -/
theorem SameLoop.twins {entry entry' : ProcedureEntry} (pair : SameLoop allowed entries entries' entry entry')
    (sound : entry.Sound entries) (sound' : entry'.Sound entries') :
    Twins allowed entries entries' entry.procedure entry'.procedure := by
  obtain ⟨spec, body, body₁, threads, next, between, start, after, signature₁, below, threaded, later, expansion,
    made⟩ := sound
  obtain ⟨spec', body', body₂, threads', next', between', start', after', signature₂, below', threaded', later',
    expansion', made'⟩ := sound'
  have agree : Signature.ofLoop spec.toTerm body = Signature.ofLoop spec'.toTerm body' := by
    rw [← signature₁, ← signature₂, pair.signature]
  obtain ⟨number, injective, rfl, rfl, rfl⟩ := exists_number_of_signature_eq agree threaded threaded'
    (fun id occurs => .inl (below id occurs)) (fun id occurs => .inl (below' id occurs))
  have named := pair.named
  rw [signature₁] at named
  obtain ⟨namedSpec, namedBody⟩ := (Signature.named_ofLoop ordinary).mp named
  have mentions := LoopSpec.mentions_threads ordinary namedSpec _ _ _ threaded
  have taken := LoopSpec.le_of_threads threaded
  have taken' := LoopSpec.le_of_threads threaded'
  rw [List.forall_mem_append] at below below'
  have belowBody : body.Below start := fun id occurs => by
    have := below.2 id occurs
    omega
  have belowBody' : (body.rename number).Below start' := fun id occurs => by
    have := below'.2 id occurs
    omega
  have old : ∀ id ∈ threads.occurrences ++ body.occurrences, id < start := by
    refine List.forall_mem_append.mpr ⟨fun id occurs => ?_, belowBody⟩
    exact Nat.lt_of_lt_of_le (LoopSpec.lt_of_threads threaded below.1 occurs) later
  have old' : ∀ id ∈ threads.occurrences ++ body.occurrences, number id < start' := by
    refine List.forall_mem_append.mpr ⟨fun id occurs => ?_, fun id occurs => ?_⟩
    · exact Nat.lt_of_lt_of_le (LoopSpec.lt_of_threads threaded' below'.1 (Threads.mem_occurrences_rename occurs)) later'
    · apply belowBody'
      rw [Term.occurrences_rename]
      exact List.mem_map_of_mem occurs
  have distinct : InjectiveOn number (threads.occurrences ++ body.occurrences) :=
    injective.mono fun _ => List.mem_append_left _
  obtain ⟨number', paired, counterpart⟩ := expansion.counterpart ordinary generated generated' expansion' namedBody
    (distinct.mono fun _ => List.mem_append_right _) (fun id member => Threads.context_rename distinct member)
    belowBody belowBody'
  have same : threads.rename number = threads.rename number' := by
    apply Threads.rename_congr
    intro id occurs
    rw [paired.old id (old id (List.mem_append_left _ occurs))]
  rw [made, made', same]
  refine Threads.twins ordinary generated generated' mentions counterpart ?_ pair
  refine (paired.injective expansion distinct (fun _ => List.mem_append_right _) old old').mono ?_
  intro id member
  rcases List.mem_append.mp member with member | member
  · exact List.mem_append_left _ (List.mem_append_left _ member)
  · exact List.mem_append_right _ member

end

end HornLoops
