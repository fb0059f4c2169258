import HornLoops.Proofs.Loop.Equivariance

/-!
# Settled loops

A goal is settled by settling its loops from the inside out, each with the variables around it. This module says so as a
relation, on which the facts about settling are proved by induction: which names and variables are left, which
surroundings matter, and that settling is stable. A variable that also occurs around a goal is not lost by settling the
goal. This is why settled goals have around their loops what the goals had that were settled, so that settling them
again finds the same shared variables, and nothing to report.
-/

namespace HornLoops

/-- Two steps that succeed one after the other succeed on their own. -/
theorem exists_of_except_bind {ε α β : Type} {action : Except ε α} {next : α → Except ε β} {value : β}
    (ended : action >>= next = .ok value) : ∃ first, action = .ok first ∧ next first = .ok value := by
  cases action with
  | error error => contradiction
  | ok first => exact ⟨first, rfl, ended⟩

variable {spec : LoopSpec} {goal : Term} {outside outside' : VarSet} {treated : Treated} {id : Nat}

/-- A loop with a specification has one that is no variable. -/
theorem LoopSpec.isVar_eq_false_of_ofTerm {specs : Term} (parsed : ofTerm specs = .ok spec) :
    specs.isVar = false := by
  cases specs with
  | var id => contradiction
  | _ => rfl

/-- The findings about a loop that is settled. -/
def LoopSpec.findings (spec : LoopSpec) (shared : VarSet) : List Diagnostic :=
  Diagnostic.ofMismatch "do" (paramMismatch? shared spec.declared)

/-- How a goal with some variables around it is settled. -/
inductive Settled : VarSet → Term → Treated → Prop
  | modality {outside : VarSet} {name : String} {inner : Term} {treated : Treated} (walked : isModality name = true)
      (inside : Settled outside inner treated) :
      Settled outside (.unary name inner) (.unary name treated.1, treated.2)
  | junction {outside : VarSet} {name : String} {left right : Term} {treated treated' : Treated}
      (walked : isJunction name = true) (first : Settled (outside.extend right.occurrences) left treated)
      (second : Settled (outside.extend left.occurrences) right treated') :
      Settled outside (.binary name left right) (.binary name treated.1 treated'.1, treated.2 ++ treated'.2)
  | loop {outside : VarSet} {specs body : Term} {spec : LoopSpec} {treated : Treated}
      (read : LoopSpec.ofTerm specs = .ok spec)
      (inside : Settled (spec.localVars.extend (spec.shared body outside)) body treated) :
      Settled outside (.binary "do" specs body)
        (.binary "do" (spec.withParams (spec.shared body outside)).toTerm treated.1,
          treated.2 ++ spec.findings (spec.shared body outside))
  | leaf {outside : VarSet} {goal : Term} (leaf : IsLeaf goal) : Settled outside goal (goal, [])

theorem settleGoal_eq_ok : settleGoal goal outside = .ok treated ↔ Settled outside goal treated := by
  unfold settleGoal
  constructor
  · intro ended
    induction goal using goalInduction generalizing outside treated with
    | modality name inner walked ih =>
      rw [treatGoal_modality _ walked] at ended
      obtain ⟨_, inside, last⟩ := exists_of_except_bind ended
      obtain rfl := Except.ok.inj last
      exact .modality walked (ih inside)
    | junction name left right walked ihLeft ihRight =>
      rw [treatGoal_junction _ walked] at ended
      obtain ⟨_, first, rest⟩ := exists_of_except_bind ended
      obtain ⟨_, second, last⟩ := exists_of_except_bind rest
      obtain rfl := Except.ok.inj last
      exact .junction walked (ihLeft first) (ihRight second)
    | loop specs body known ih =>
      rw [treatGoal_loop _ known] at ended
      obtain ⟨spec, read, rest⟩ := exists_of_except_bind ended
      obtain ⟨_, inside, last⟩ := exists_of_except_bind rest
      obtain rfl := Except.ok.inj last
      exact .loop read (ih inside)
    | leaf goal leaf =>
      rw [treatGoal_leaf _ leaf] at ended
      obtain rfl := Except.ok.inj ended
      exact .leaf leaf
  · intro settled
    induction settled with
    | modality walked inside ih =>
      rw [treatGoal_modality _ walked, ih]
      rfl
    | junction walked first second ihFirst ihSecond =>
      rw [treatGoal_junction _ walked, ihFirst]
      simp only [Bind.bind, Except.bind, ihSecond]
      rfl
    | loop read inside ih =>
      rw [treatGoal_loop _ (LoopSpec.isVar_eq_false_of_ofTerm read), settleLoop, read]
      simp only [Bind.bind, Except.bind, ih]
      rfl
    | leaf leaf => exact treatGoal_leaf _ leaf _

/-! ## Names and variables -/

/-- Settling the loops of a goal takes no variables, and it brings in no names but ordinary ones. -/
theorem Settled.keeps {allowed : String → Prop} (ordinary : Ordinary allowed) (settled : Settled outside goal treated)
    (named : goal.Named allowed) : treated.1.Named allowed ∧ treated.1.occurrences ⊆ goal.occurrences := by
  induction settled with
  | modality walked inside ih =>
    rw [Term.named_unary] at named
    obtain ⟨named', kept⟩ := ih named.2
    simpa [Term.named_unary, named.1, named'] using kept
  | junction walked first second ihFirst ihSecond =>
    rw [Term.named_binary] at named
    obtain ⟨named', kept⟩ := ihFirst named.2.1
    obtain ⟨named'', kept'⟩ := ihSecond named.2.2
    refine ⟨Term.named_binary.mpr ⟨named.1, named', named''⟩, fun id member => ?_⟩
    simp only [Term.occurrences_binary, List.mem_append] at member ⊢
    exact member.imp (kept ·) (kept' ·)
  | @loop outside specs body spec treated read inside ih =>
    rw [Term.named_binary] at named
    obtain ⟨named', kept⟩ := ih named.2.2
    have namedSpec := LoopSpec.named_withParams ordinary (LoopSpec.named_of_ofTerm ordinary read named.2.1)
      (spec.shared body outside)
    have namedSpecs : (spec.withParams (spec.shared body outside)).toTerm.Named allowed := by
      refine Term.named_conjunction ordinary fun goal member => ?_
      obtain ⟨iterator, origin, rfl⟩ := List.mem_map.mp member
      exact namedSpec iterator origin
    refine ⟨Term.named_binary.mpr ⟨ordinary "do" (by decide), namedSpecs, named'⟩, fun id member => ?_⟩
    simp only [Term.occurrences_binary, List.mem_append, LoopSpec.occurrences_toTerm] at member ⊢
    exact List.mem_append.mp
      (LoopSpec.mem_occurrences_of_settled read (List.mem_append.mpr (member.imp_right (kept ·))))
  | leaf leaf => exact ⟨named, fun _ => id⟩

theorem Settled.occurrences_subset (settled : Settled outside goal treated) :
    treated.1.occurrences ⊆ goal.occurrences := by
  have ordinary : Ordinary fun _ => True := fun _ _ => trivial
  exact (settled.keeps ordinary fun _ _ => trivial).2

/-- A variable that occurs around a goal is not lost by settling the goal. -/
theorem Settled.retains (settled : Settled outside goal treated) (around : id ∈ outside)
    (occurs : id ∈ goal.occurrences) : id ∈ treated.1.occurrences := by
  induction settled with
  | modality walked inside ih =>
    simpa using ih around (by simpa using occurs)
  | junction walked first second ihFirst ihSecond =>
    simp only [Term.occurrences_binary, List.mem_append] at occurs ⊢
    exact occurs.imp (ihFirst (VarSet.mem_extend.mpr (.inl around))) (ihSecond (VarSet.mem_extend.mpr (.inl around)))
  | @loop outside specs body spec treated read inside ih =>
    simp only [Term.occurrences_binary, List.mem_append, LoopSpec.occurrences_toTerm,
      ← LoopSpec.occurrences_of_ofTerm read] at occurs ⊢
    rw [LoopSpec.mem_occurrences, LoopSpec.localVars_withParams, LoopSpec.globalVars_withParams,
      LoopSpec.mem_declared_withParams, LoopSpec.mem_shared]
    rw [LoopSpec.mem_occurrences] at occurs
    rcases occurs with (new | once | declares) | occurs
    · exact .inl (.inl new)
    · exact .inl (.inr (.inl once))
    · exact .inl (.inr (.inr (.inr ⟨declares, around⟩)))
    · by_cases new : id ∈ spec.localVars
      · exact .inl (.inl new)
      · exact .inl (.inr (.inr (.inl ⟨occurs, new, .inl around⟩)))
  | leaf leaf => exact occurs

/-- Beside a goal that was settled, a variable is around exactly if it is around beside the goal. -/
theorem Settled.mem_beside {beside : VarSet} (settled : Settled (outside.extend beside) goal treated)
    (member : id ∈ beside) : id ∈ outside.extend treated.1.occurrences ↔ id ∈ outside.extend goal.occurrences := by
  rw [VarSet.mem_extend, VarSet.mem_extend]
  apply or_congr_right
  constructor
  · intro occurs
    exact settled.occurrences_subset occurs
  · intro occurs
    exact settled.retains (VarSet.mem_extend.mpr (.inr member)) occurs

/-! ## Surroundings -/

/-- What a loop shares depends only on which of its variables are around it. -/
theorem LoopSpec.shared_congr {body : Term}
    (around : ∀ id ∈ spec.occurrences ++ body.occurrences, id ∈ outside' ↔ id ∈ outside) :
    spec.shared body outside' = spec.shared body outside := by
  have used : body.vars.filter (fun id => id ∉ spec.localVars && (id ∈ outside' || id ∈ spec.globalVars)) =
      body.vars.filter fun id => id ∉ spec.localVars && (id ∈ outside || id ∈ spec.globalVars) := by
    apply List.filter_congr
    intro id member
    have same := around id (List.mem_append_right _ (Term.mem_vars.mp member))
    simp only [same]
  have declares : spec.declared.filter (· ∈ outside') = spec.declared.filter (· ∈ outside) := by
    apply List.filter_congr
    intro id member
    have same := around id (List.mem_append_left _ (mem_occurrences_of_declared member))
    simp only [same]
  rw [shared, shared, used, declares]

/-- How a goal is settled depends only on which of its variables are around it. -/
theorem Settled.congr (settled : Settled outside goal treated)
    (around : ∀ id ∈ goal.occurrences, id ∈ outside' ↔ id ∈ outside) : Settled outside' goal treated := by
  induction settled generalizing outside' with
  | modality walked inside ih => exact .modality walked (ih (by simpa using around))
  | junction walked first second ihFirst ihSecond =>
    simp only [Term.occurrences_binary, List.mem_append] at around
    refine .junction walked (ihFirst fun id member => ?_) (ihSecond fun id member => ?_)
    · rw [VarSet.mem_extend, VarSet.mem_extend, around id (.inl member)]
    · rw [VarSet.mem_extend, VarSet.mem_extend, around id (.inr member)]
  | @loop outside specs body spec treated read inside ih =>
    have same : spec.shared body outside' = spec.shared body outside := by
      apply LoopSpec.shared_congr
      intro id member
      rw [LoopSpec.occurrences_of_ofTerm read] at member
      exact around id (by simpa using member)
    rw [← same] at inside ⊢
    exact .loop read inside
  | leaf leaf => exact .leaf leaf

/-! ## Settling again -/

/-- The same iterator, or the same parameters in another order. -/
inductive LoopIterator.Reordered : LoopIterator → LoopIterator → Prop
  | same (iterator : LoopIterator) : Reordered iterator iterator
  | params {vars vars' : List Nat} (shuffled : vars.Perm vars') : Reordered (.param vars) (.param vars')

/-- The same goal, apart from the order of the parameters of its loops. -/
inductive Reordered : Term → Term → Prop
  | modality {name : String} {inner inner' : Term} (walked : isModality name = true) (inside : Reordered inner inner') :
      Reordered (.unary name inner) (.unary name inner')
  | junction {name : String} {left left' right right' : Term} (walked : isJunction name = true)
      (first : Reordered left left') (second : Reordered right right') :
      Reordered (.binary name left right) (.binary name left' right')
  | loop {spec spec' : LoopSpec} {body body' : Term}
      (iterators : List.Forall₂ LoopIterator.Reordered spec.iterators spec'.iterators)
      (inside : Reordered body body') : Reordered (.binary "do" spec.toTerm body) (.binary "do" spec'.toTerm body')
  | same (goal : Term) : Reordered goal goal

/-- The same clause, apart from the order of the parameters of the loops in its body. -/
inductive ReorderedClause : Term → Term → Prop
  | rule (head : Term) {body body' : Term} (inside : Reordered body body') :
      ReorderedClause (.binary ":-" head body) (.binary ":-" head body')
  | directive {goal goal' : Term} (inside : Reordered goal goal') :
      ReorderedClause (.unary ":-" goal) (.unary ":-" goal')
  | fact (clause : Term) : ReorderedClause clause clause

namespace LoopSpec

theorem nodup_shared (spec : LoopSpec) (body : Term) (outside : VarSet) : (spec.shared body outside).Nodup :=
  VarSet.nodup_extend ((Term.nodup_vars body).filter _) _

theorem reordered_withParams (spec : LoopSpec) {shared shared' : VarSet} (shuffled : shared.Perm shared') :
    List.Forall₂ LoopIterator.Reordered (spec.withParams shared).iterators (spec.withParams shared').iterators := by
  have others : List.Forall₂ LoopIterator.Reordered spec.others spec.others := List.forall₂_same.mpr fun _ _ => .same _
  have empty : shared = [] ↔ shared' = [] := by
    rw [← List.length_eq_zero_iff, ← List.length_eq_zero_iff, shuffled.length_eq]
  rw [iterators_withParams, iterators_withParams]
  simp only [empty]
  split
  · exact others
  · exact .cons (.params shuffled) others

/-- There is nothing to report about a loop whose parameters are the variables that it shares. -/
theorem findings_eq_nil {spec : LoopSpec} {shared : VarSet} (same : ∀ id, id ∈ spec.declared ↔ id ∈ shared) :
    spec.findings shared = [] := by
  have undeclared : shared.without spec.declared = [] := by
    simp [VarSet.without, same]
  have unshared : spec.declared.without shared = [] := by
    simp [VarSet.without, same]
  simp [findings, paramMismatch?, undeclared, unshared, Diagnostic.ofMismatch]

/-- A loop that was settled shares the same variables when it is settled again, for its body has still got those that it
shares with the terms that are looked at once. -/
theorem mem_shared_withParams {spec : LoopSpec} {body : Term} {outside : VarSet} {treated : Treated}
    (inside : Settled (spec.localVars.extend (spec.shared body outside)) body treated) {id : Nat} :
    id ∈ (spec.withParams (spec.shared body outside)).shared treated.1 outside ↔ id ∈ spec.shared body outside := by
  rw [mem_shared, localVars_withParams, globalVars_withParams, mem_declared_withParams]
  constructor
  · rintro (⟨occurs, new, around⟩ | ⟨member, -⟩)
    · exact mem_shared.mpr (.inl ⟨inside.occurrences_subset occurs, new, around⟩)
    · exact member
  · intro member
    by_cases around : id ∈ outside
    · exact .inr ⟨member, around⟩
    · rcases mem_shared.mp member with ⟨occurs, new, there⟩ | ⟨-, there⟩
      · exact .inl ⟨inside.retains (VarSet.mem_extend.mpr (.inr member)) occurs, new, there⟩
      · contradiction

end LoopSpec

/-- What was settled can be settled again in the same surroundings. There is nothing to report, and at most the
parameters are put into another order. -/
theorem Settled.again (settled : Settled outside goal treated) :
    ∃ goal', Settled outside treated.1 (goal', []) ∧ Reordered treated.1 goal' := by
  induction settled with
  | modality walked inside ih =>
    obtain ⟨inner, again, same⟩ := ih
    exact ⟨_, .modality walked again, .modality walked same⟩
  | @junction outside name left right treated treated' walked first second ihFirst ihSecond =>
    obtain ⟨left', again, same⟩ := ihFirst
    obtain ⟨right', again', same'⟩ := ihSecond
    have around : ∀ id ∈ treated.1.occurrences,
        id ∈ outside.extend treated'.1.occurrences ↔ id ∈ outside.extend right.occurrences :=
      fun id member => second.mem_beside (first.occurrences_subset member)
    have around' : ∀ id ∈ treated'.1.occurrences,
        id ∈ outside.extend treated.1.occurrences ↔ id ∈ outside.extend left.occurrences :=
      fun id member => first.mem_beside (second.occurrences_subset member)
    exact ⟨_, .junction walked (again.congr around) (again'.congr around'), .junction walked same same'⟩
  | @loop outside specs body spec treated read inside ih =>
    obtain ⟨body', again, same⟩ := ih
    have shares (id : Nat) : id ∈ (spec.withParams (spec.shared body outside)).shared treated.1 outside ↔
        id ∈ spec.shared body outside := LoopSpec.mem_shared_withParams inside
    have around : ∀ id ∈ treated.1.occurrences,
        id ∈ (spec.withParams (spec.shared body outside)).localVars.extend
            ((spec.withParams (spec.shared body outside)).shared treated.1 outside) ↔
          id ∈ spec.localVars.extend (spec.shared body outside) := by
      intro id _
      rw [VarSet.mem_extend, VarSet.mem_extend, LoopSpec.localVars_withParams, shares]
    have settled := Settled.loop (LoopSpec.ofTerm_toTerm _) (again.congr around)
    rw [LoopSpec.findings_eq_nil fun id => (LoopSpec.mem_declared_withParams _ _).trans (shares id).symm,
      LoopSpec.withParams_withParams] at settled
    have shuffled := (List.perm_ext_iff_of_nodup (LoopSpec.nodup_shared _ _ _) (LoopSpec.nodup_shared _ _ _)).mpr
      fun id => (shares id).symm
    exact ⟨_, settled, .loop (spec.reordered_withParams shuffled) same⟩
  | leaf leaf => exact ⟨_, .leaf leaf, .same _⟩

theorem settleClause_again {clause : Term} (settled : settleClause clause = .ok treated) :
    ∃ clause', settleClause treated.1 = .ok (clause', []) ∧ ReorderedClause treated.1 clause' := by
  unfold settleClause at settled ⊢
  rcases Term.clause_cases clause with ⟨head, body, rfl⟩ | ⟨goal, rfl⟩ | ⟨notRule, notDirective⟩
  · rw [treatClause_rule] at settled
    obtain ⟨_, inside, last⟩ := exists_of_except_bind settled
    obtain rfl := Except.ok.inj last
    obtain ⟨body', again, same⟩ := (settleGoal_eq_ok.mp inside).again
    refine ⟨_, ?_, .rule head same⟩
    rw [treatClause_rule, ← settleGoal, settleGoal_eq_ok.mpr again]
    rfl
  · rw [treatClause_directive] at settled
    obtain ⟨_, inside, last⟩ := exists_of_except_bind settled
    obtain rfl := Except.ok.inj last
    obtain ⟨goal', again, same⟩ := (settleGoal_eq_ok.mp inside).again
    refine ⟨_, ?_, .directive same⟩
    rw [treatClause_directive, ← settleGoal, settleGoal_eq_ok.mpr again]
    rfl
  · rw [treatClause_fact _ notRule notDirective] at settled
    obtain rfl := Except.ok.inj settled
    exact ⟨clause, treatClause_fact _ notRule notDirective, .fact clause⟩

/-- Settling is stable. A goal that was settled can be settled again with the same variables around it, and a clause that
was settled can be settled again. There is nothing to report then, and the goal or clause stays the same, apart from the
order in which a loop may list its parameters. -/
theorem settling_stable :
    (∀ (goal : Term) (outside : VarSet) (treated : Treated), settleGoal goal outside = .ok treated →
      ∃ again, settleGoal treated.1 outside = .ok (again, []) ∧ Reordered treated.1 again) ∧
    (∀ (clause : Term) (treated : Treated), settleClause clause = .ok treated →
      ∃ again, settleClause treated.1 = .ok (again, []) ∧ ReorderedClause treated.1 again) := by
  constructor
  · intro goal outside treated settled
    obtain ⟨again, settled', same⟩ := (settleGoal_eq_ok.mp settled).again
    exact ⟨again, settleGoal_eq_ok.mpr settled', same⟩
  · intro clause treated settled
    exact settleClause_again settled

/-- A loop over a list inside another one, with parameters for both. -/
def pairedLoops (outer inner : VarSet) : Term :=
  .binary "do" (LoopSpec.withParams ⟨.forEach (.var 4) (.var 0), []⟩ outer).toTerm
    (.binary "do" (LoopSpec.withParams ⟨.forEach (.var 5) (.var 1), []⟩ inner).toTerm
      (.build "q" [.var 2, .var 3, .var 5]))

/-- The head of a rule with these loops. -/
def pairedHead : Term := .build "p" [.var 0, .var 1, .var 2, .var 3]

/-- The parameters of the inner loop come before its list when the loops are settled again, so the parameters of the
outer loop change their order. -/
theorem settling_stable_paired :
    settleGoal (pairedLoops [] []) [0, 1, 2, 3] = .ok (pairedLoops [1, 2, 3] [2, 3], []) ∧
      settleGoal (pairedLoops [1, 2, 3] [2, 3]) [0, 1, 2, 3] = .ok (pairedLoops [2, 3, 1] [2, 3], []) ∧
      Reordered (pairedLoops [1, 2, 3] [2, 3]) (pairedLoops [2, 3, 1] [2, 3]) ∧
    settleClause (.binary ":-" pairedHead (pairedLoops [0] [])) =
        .ok (.binary ":-" pairedHead (pairedLoops [1, 2, 3, 0] [2, 3]), [⟨"do", ⟨[1, 2, 3], []⟩⟩]) ∧
      settleClause (.binary ":-" pairedHead (pairedLoops [1, 2, 3, 0] [2, 3])) =
        .ok (.binary ":-" pairedHead (pairedLoops [2, 3, 1, 0] [2, 3]), []) ∧
      ReorderedClause (.binary ":-" pairedHead (pairedLoops [1, 2, 3, 0] [2, 3]))
        (.binary ":-" pairedHead (pairedLoops [2, 3, 1, 0] [2, 3])) := by
  obtain ⟨goals, clauses⟩ := settling_stable
  have first : settleGoal (pairedLoops [] []) [0, 1, 2, 3] = .ok (pairedLoops [1, 2, 3] [2, 3], []) := rfl
  have second : settleGoal (pairedLoops [1, 2, 3] [2, 3]) [0, 1, 2, 3] = .ok (pairedLoops [2, 3, 1] [2, 3], []) := rfl
  have first' : settleClause (.binary ":-" pairedHead (pairedLoops [0] [])) =
      .ok (.binary ":-" pairedHead (pairedLoops [1, 2, 3, 0] [2, 3]), [⟨"do", ⟨[1, 2, 3], []⟩⟩]) := rfl
  have second' : settleClause (.binary ":-" pairedHead (pairedLoops [1, 2, 3, 0] [2, 3])) =
      .ok (.binary ":-" pairedHead (pairedLoops [2, 3, 1, 0] [2, 3]), []) := rfl
  obtain ⟨again, settled, same⟩ := goals _ _ _ first
  obtain ⟨again', settled', same'⟩ := clauses _ _ first'
  obtain ⟨rfl, -⟩ := Prod.mk.inj (Except.ok.inj (second.symm.trans settled))
  obtain ⟨rfl, -⟩ := Prod.mk.inj (Except.ok.inj (second'.symm.trans settled'))
  exact ⟨first, second, same, first', second', same'⟩

end HornLoops
