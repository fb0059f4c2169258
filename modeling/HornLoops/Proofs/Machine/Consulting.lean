import HornLoops.Proofs.Machine.Approximation
import HornLoops.Proofs.Machine.Preparation
import HornLoops.Proofs.Reader.Variables

/-!
# Programs that are consulted, side by side

Machines that are alike are still alike after the same text was consulted on both: clauses are prepared alike and added
at the end of both programs, and directives are searched alike. The library is such a text, and since it has no
directives, machines start alike whatever is in their stores.
-/

namespace HornLoops

open Bindings Machine

/-! ## Machines that are alike -/

/-- Machines with the same settings and with programs whose clauses differ in the procedures that are called for the same
loop only. Their stores have grown side by side. -/
structure Machine.Alike (start start' : Procedures) (left right : Machine) : Prop where
  /-- The settings are the same. -/
  settings : right.settings = left.settings
  /-- The first store has grown. -/
  store : start.Evolved left.procedures
  /-- So has the second one. -/
  store' : start'.Evolved right.procedures
  /-- They have grown side by side. -/
  concordant : Concordant start.entries start'.entries left.procedures.entries right.procedures.entries
  /-- The clauses of the programs correspond to each other. -/
  clauses : List.Forall₂ (Clause.Alike left.procedures.entries right.procedures.entries) left.program.clauses
    right.program.clauses

namespace Machine.Alike

variable {start start' : Procedures} {left right : Machine}

/-- What stays the same while searches on the two machines are compared. -/
def comparison (alike : Machine.Alike start start' left right) (lead : Nat) (excused : Bool) : Comparison where
  settings := left.settings
  program := left.program
  program' := right.program
  start := left.procedures
  start' := right.procedures
  lead := lead
  excused := excused
  clauses := alike.clauses

variable (alike : Machine.Alike start start' left right) {lead : Nat} {excused : Bool}

theorem aligned (barriers : right.barriers = left.barriers + lead) :
    Aligned (alike.comparison lead excused) left right where
  settings := rfl
  settings' := alike.settings
  program := rfl
  program' := rfl
  store := alike.store.refl
  store' := alike.store'.refl
  concordant := .refl _ _
  barriers := barriers

include alike in
theorem symm : Machine.Alike start' start right left where
  settings := alike.settings.symm
  store := alike.store'
  store' := alike.store
  concordant := alike.concordant.symm
  clauses := (alike.clauses.imp fun _ _ => Clause.Alike.symm).flip

/-- Searches that are compared leave machines that are alike. -/
theorem of_aligned {after after' : Machine} (aligned : Aligned (alike.comparison lead excused) after after') :
    Machine.Alike start start' after after' where
  settings := aligned.settings'.trans aligned.settings.symm
  store := alike.store.trans aligned.store
  store' := alike.store'.trans aligned.store'
  concordant := alike.concordant.trans aligned.concordant aligned.store.grown.subset aligned.store'.grown.subset
  clauses := by
    rw [aligned.program, aligned.program']
    exact alike.clauses.imp fun _ _ pair => pair.mono aligned.store.grown.subset aligned.store'.grown.subset

end Machine.Alike

variable {comparison : Comparison} {count : Nat} {number : Nat → Nat} {left right : Machine}

/-! ## Searches from the top -/

variable {goal goal' : Term} {fuel fuel' : Nat} {α β : Type} {start start' procedures : Procedures}
  {reads : List ReadTerm}

section

variable (poised : Poised comparison count left right) (prepared : Prepared count number left right goal goal')
include poised prepared

/-- Goals that are prepared correspond to each other. -/
theorem Poised.coupled : Coupled comparison ⟨prepared.link, left, right⟩ where
  aligned := poised.aligned
  allowed := rfl
  mirrors := prepared.mirrors poised.vacant poised.vacant'

/-- Searches for prepared goals agree. -/
theorem Poised.solve (fuels : comparison.Fuels fuel fuel') {σ : Type} {related : σ → σ → Prop} {k k' : Continuation σ}
    (continues : Continues comparison ⟨prepared.link, left, right⟩ related k k') {acc acc' : σ}
    (values : related acc acc') : Concurs comparison
      (fun outcome outcome' left right => related outcome.2 outcome'.2 ∧ Poised comparison count left right)
      ((Run.newBarrier >>= fun barrier => Machine.solve fuel σ goal 0 barrier k acc) left)
      ((Run.newBarrier >>= fun barrier => Machine.solve fuel' σ goal' 0 barrier k' acc') right) := by
  have coupled := poised.coupled prepared
  have goals : GoalsAlike ⟨prepared.link, left, right⟩ goal goal' :=
    coupled.goalsAlike prepared.goals fun id occurs => .inr occurs
  have matched : Matches comparison ⟨prepared.link, left, right⟩ related
      ((Run.newBarrier >>= fun barrier => Machine.solve fuel σ goal 0 barrier k acc) left)
      ((Run.newBarrier >>= fun barrier => Machine.solve fuel' σ goal' 0 barrier k' acc') right) := by
    refine coupled.matches_newBarrier fun later barrier le coupled' => ?_
    exact simulates_solve _ fuels coupled' (le.goalsAlike goals) 0 barrier (continues.mono le) values
  refine matched.imp ?_
  rintro outcome outcome' left' right' ⟨_, values', returned⟩
  obtain ⟨size, same⟩ := returned.bindings
  obtain ⟨size', same'⟩ := returned.bindings'
  refine ⟨values', returned.coupled.aligned, ?_, ?_⟩
  · rw [same]
    exact poised.vacant.reserve size
  · rw [same']
    exact poised.vacant'.reserve size'

/-- Directives are run alike. -/
theorem Poised.runDirective (fuels : comparison.Fuels fuel fuel') :
    Concurs comparison (fun _ _ => Poised comparison count) (Machine.runDirective fuel goal left)
      (Machine.runDirective fuel' goal' right) := by
  have continues : Continues comparison ⟨prepared.link, left, right⟩ (fun _ _ : Unit => True)
      (fun _ => return (.halt, ())) (fun _ => return (.halt, ())) :=
    fun later _ _ _ coupled _ => .ok ⟨rfl, trivial, .refl coupled⟩
  exact (poised.solve prepared fuels continues trivial).bind fun _ _ _ _ ⟨_, poised'⟩ => .ok poised'

end

/-! ## Clauses that are prepared -/

/-- What two machines have made of a clause that was read. -/
inductive ClausesAlike (count : Nat) (left right : Machine) : Term → Term → Prop
  | rule {head body body' : Term} {number : Nat → Nat} (named : head.Named Unreserved) (below : head.Below count)
      (prepared : Prepared count number left right body body') :
      ClausesAlike count left right (.binary ":-" head body) (.binary ":-" head body')
  | directive {goal goal' : Term} {number : Nat → Nat} (prepared : Prepared count number left right goal goal') :
      ClausesAlike count left right (.unary ":-" goal) (.unary ":-" goal')
  | fact {clause : Term} (named : clause.Named Unreserved) (below : clause.Below count)
      (notRule : clause.binary? ":-" = none) (notDirective : clause.unary? ":-" = none) :
      ClausesAlike count left right clause clause

theorem Run.compiling_map (action : Compiler α) (finish : α → β) :
    Run.compiling (action >>= fun value => pure (finish value)) =
      Run.compiling action >>= fun value => pure (finish value) := by
  funext machine
  simp only [Run.compiling, Bind.bind, EStateM.bind]
  cases action ⟨machine.bindings.size, machine.procedures⟩ <;> rfl

namespace Machine

/-- A clause is prepared by preparing the goal in it, with some variables around the goal. -/
theorem prepareClause_of_treatClause {clause goal : Term} {outside : VarSet} {finish : Term → Term}
    (expanded : Compiler.expandClause clause =
      Compiler.expandGoal goal outside >>= fun treated => pure (finish treated.1, treated.2))
    (settled : settleClause clause = settleGoal goal outside >>= fun treated => pure (finish treated.1, treated.2)) :
    prepareClause clause = prepareWith outside goal >>= fun treated => pure (finish treated.1, treated.2) := by
  funext machine
  simp only [prepareClause, prepareWith, expanded, settled, Run.compiling_map]
  rw [bind_assoc, Run.get_bind, Run.get_bind]
  cases machine.settings.expandsAhead with
  | true => rfl
  | false => cases settleGoal goal outside <;> rfl

theorem prepareClause_rule (head body : Term) :
    prepareClause (.binary ":-" head body) =
      prepareWith head.vars body >>= fun treated => pure (.binary ":-" head treated.1, treated.2) :=
  prepareClause_of_treatClause (treatClause_rule _ head body) (treatClause_rule _ head body)

theorem prepareClause_directive (goal : Term) :
    prepareClause (.unary ":-" goal) =
      prepareWith [] goal >>= fun treated => pure (.unary ":-" treated.1, treated.2) :=
  prepareClause_of_treatClause (treatClause_directive _ goal) (treatClause_directive _ goal)

theorem prepareClause_fact {clause : Term} (notRule : clause.binary? ":-" = none)
    (notDirective : clause.unary? ":-" = none) (machine : Machine) :
    prepareClause clause machine = .ok (clause, []) machine := by
  simp only [prepareClause, Compiler.expandClause, settleClause, treatClause_fact _ notRule notDirective]
  rw [Run.get_bind]
  cases machine.settings.expandsAhead with
  | true => simp only [if_true, Run.compiling, Pure.pure, EStateM.pure, Bindings.reserve_size]
  | false => rfl

end Machine

/-- Two machines prepare a clause alike. -/
theorem Poised.prepareClause (poised : Poised comparison count left right) {clause : Term}
    (named : clause.Named Unreserved) (below : clause.Below count) :
    Concurs comparison
      (fun treated treated' left right => Poised comparison count left right ∧
        ClausesAlike count left right treated.1 treated'.1)
      (Machine.prepareClause clause left) (Machine.prepareClause clause right) := by
  rcases Term.clause_cases clause with ⟨head, body, rfl⟩ | ⟨goal, rfl⟩ | ⟨notRule, notDirective⟩
  · rw [Term.named_binary] at named
    rw [Term.below_binary] at below
    rw [prepareClause_rule]
    refine (poised.prepareWith named.2.2 below.2 head.vars).bind ?_
    rintro treated treated' left' right' ⟨poised', number, prepared⟩
    exact .ok ⟨poised', .rule named.2.1 below.1 prepared⟩
  · rw [Term.named_unary] at named
    rw [Term.below_unary] at below
    rw [prepareClause_directive]
    refine (poised.prepareWith named.2 below []).bind ?_
    rintro treated treated' left' right' ⟨poised', number, prepared⟩
    exact .ok ⟨poised', .directive prepared⟩
  · rw [prepareClause_fact notRule notDirective, prepareClause_fact notRule notDirective]
    exact .ok ⟨poised, .fact named below notRule notDirective⟩

/-! ## Clauses that are added -/

/-- Prepared bodies make clauses that correspond to each other. -/
theorem Prepared.clauseAlike {body body' : Term} (prepared : Prepared count number left right body body') {head : Term}
    (named : head.Named Unreserved) (below : head.Below count) :
    Clause.Alike left.procedures.entries right.procedures.entries (.ofTerms head body) (.ofTerms head body') := by
  have same : head.rename number = head := Term.rename_eq_self fun id occurs => prepared.old id (below id occurs)
  have heads : head.occurrences = head.occurrences.map number := by rw [← Term.occurrences_rename, same]
  have known : ∀ id ∈ head.occurrences ++ body.occurrences, prepared.link.known id :=
    List.forall_mem_append.mpr ⟨fun id occurs => .inl (below id occurs), fun id occurs => .inr occurs⟩
  obtain ⟨vars, distinct, bodies⟩ :=
    Clause.numbered_counterpart heads prepared.goals (Link.injectiveOn_of_known known)
  refine ⟨?_, ?_, Term.named_rename.mpr named, (Clause.below_ofTerms head body).1, (Clause.below_ofTerms head body).2,
    bodies⟩
  · have numbered := Term.rename_idxOf_map distinct fun id occurs =>
      Term.mem_varsAll.mpr ⟨head, by simp, occurs⟩
    rw [same] at numbered
    simp only [Clause.ofTerms, vars, numbered]
  · simp only [Clause.ofTerms, vars, List.length_map]

/-- Machines that are alike while a text is consulted: the barriers keep their distance, and the variables that were read
are unbound. -/
structure Consults (start start' : Procedures) (lead count : Nat) (left right : Machine) : Prop where
  /-- The machines are alike. -/
  alike : Machine.Alike start start' left right
  /-- The barriers of the second one are ahead. -/
  barriers : right.barriers = left.barriers + lead
  /-- No variable of the first one is bound. -/
  vacant : left.bindings.Vacant count
  /-- Nor is one of the second one. -/
  vacant' : right.bindings.Vacant count

namespace Consults

variable {start start' : Procedures} {lead : Nat} {excused : Bool} (consults : Consults start start' lead count left right)
include consults

theorem poised (excused : Bool) : Poised (consults.alike.comparison lead excused) count left right :=
  ⟨consults.alike.aligned consults.barriers, consults.vacant, consults.vacant'⟩

/-- What agrees while the programs stay the same agrees while a text is consulted. -/
theorem agrees {α β : Type} {holds : α → β → Machine → Machine → Prop} {result : EStateM.Result Stop Machine α}
    {result' : EStateM.Result Stop Machine β}
    (concurs : Concurs (consults.alike.comparison lead excused)
      (fun value value' left right => Poised (consults.alike.comparison lead excused) count left right ∧
        holds value value' left right) result result') :
    EndsAlike excused (Machine.Alike start start')
      (fun value value' left right => Consults start start' lead count left right ∧ holds value value' left right)
      result result' := by
  refine (concurs.impStopped fun _ _ => consults.alike.of_aligned).imp ?_
  rintro value value' left' right' ⟨poised, rest⟩
  exact ⟨⟨consults.alike.of_aligned poised.aligned, poised.aligned.barriers, poised.vacant, poised.vacant'⟩, rest⟩

/-- Clauses are added alike. -/
theorem addClause {clause clause' head body body' : Term} (parts : Program.headAndBody clause = (head, body))
    (parts' : Program.headAndBody clause' = (head, body')) (named : head.Named Unreserved) (below : head.Below count)
    (prepared : Prepared count number left right body body') :
    EndsAlike excused (Machine.Alike start start') (fun _ _ => Consults start start' lead count)
      (Machine.addClause clause left) (Machine.addClause clause' right) := by
  have added : List.Forall₂ (Clause.Alike left.procedures.entries right.procedures.entries)
      (left.program.clauses ++ [.ofTerms head body]) (right.program.clauses ++ [.ofTerms head body']) :=
    List.rel_append consults.alike.clauses (.cons (prepared.clauseAlike named below) .nil)
  have after : Consults start start' lead count
      { left with program := ⟨left.program.clauses ++ [.ofTerms head body]⟩ }
      { right with program := ⟨right.program.clauses ++ [.ofTerms head body']⟩ } :=
    { consults with alike := { consults.alike with clauses := added } }
  unfold Machine.addClause
  rw [Run.get_bind, Run.get_bind]
  simp only [Program.add, parts, parts']
  match head with
  | .var _ => exact .fail rfl consults.alike
  | .int _ => exact .fail rfl consults.alike
  | .atom _ => exact .ok after
  | .compound _ _ _ => exact .ok after

end Consults

/-- Clauses that were read are dealt with alike. -/
theorem Consults.consultClauses {lead : Nat} {excused : Bool} (consults : Consults start start' lead count left right)
    (fuels : Fuels excused fuel fuel') (named : ∀ read ∈ reads, read.term.Named Unreserved)
    (below : ∀ read ∈ reads, read.term.Below count) :
    EndsAlike excused (Machine.Alike start start')
      (fun added added' left right => added' = added ∧ Machine.Alike start start' left right)
      (Machine.consultClauses fuel reads left) (Machine.consultClauses fuel' reads right) := by
  induction reads generalizing left right with
  | nil => exact .ok ⟨rfl, consults.alike⟩
  | cons read reads ih =>
    obtain ⟨namedFirst, namedRest⟩ := List.forall_mem_cons.mp named
    obtain ⟨belowFirst, belowRest⟩ := List.forall_mem_cons.mp below
    unfold Machine.consultClauses
    refine (consults.agrees ((consults.poised excused).prepareClause namedFirst belowFirst)).bind ?_
    rintro ⟨clause, findings⟩ ⟨clause', findings'⟩ left' right' ⟨consults', clauses⟩
    dsimp only at clauses ⊢
    rw [Run.report_bind, Run.report_bind]
    have reported : Consults start start' lead count
        { left' with warnings := left'.warnings ++ findings.map (LoopWarning.ofDiagnostic read.names) }
        { right' with warnings := right'.warnings ++ findings'.map (LoopWarning.ofDiagnostic read.names) } :=
      { consults' with alike := { consults'.alike with } }
    have counted {action action' : Run Unit} {left right : Machine}
        (begins : EndsAlike excused (Machine.Alike start start') (fun _ _ => Consults start start' lead count) (action left)
          (action' right)) :
        EndsAlike excused (Machine.Alike start start')
          (fun added added' left right => added' = added ∧ Machine.Alike start start' left right)
          ((do action; return (← Machine.consultClauses fuel reads) + 1) left)
          ((do action'; return (← Machine.consultClauses fuel' reads) + 1) right) := by
      refine begins.bind fun _ _ left right consults => (ih consults namedRest belowRest).bind ?_
      rintro added added' left right ⟨same, alike⟩
      exact .ok ⟨by rw [same], alike⟩
    cases clauses with
    | rule namedHead belowHead prepared =>
      exact counted (reported.addClause rfl rfl namedHead belowHead { prepared with })
    | directive prepared =>
      have directed := (reported.poised excused).runDirective { prepared with } fuels
      refine (reported.agrees (directed.imp fun _ _ _ _ poised => ⟨poised, trivial⟩)).bind ?_
      exact fun _ _ _ _ ⟨consults, _⟩ => ih consults namedRest belowRest
    | fact namedHead belowHead notRule notDirective =>
      simp only [notDirective]
      have parts : Program.headAndBody clause = (clause, .truth) := by rw [Program.headAndBody, notRule]; rfl
      have truth : Term.truth.Named Unreserved := Term.named_atom.mpr (ordinary_unreserved "true" (by decide))
      refine counted (reported.addClause parts parts namedHead belowHead (.of_named truth ?_ reported.vacant reported.vacant'))
      simp [Term.Below, Term.truth]

/-! ## Texts that are consulted -/

theorem Bindings.undoTo_mark_empty (bindings : Bindings) : bindings.undoTo Bindings.empty.mark = .empty := by
  simp [undoTo, unbindTo, mark, empty]

section

variable {excused : Bool} {stopped : Machine → Machine → Prop} {α β γ : Type}
  (blind : ∀ left right bindings bindings', stopped left right →
    stopped { left with bindings := bindings } { right with bindings := bindings' })
  (empty : left.bindings = .empty) (empty' : right.bindings = .empty)
include blind empty empty'

/-- Machines without variables have none again after they went back to their bindings. -/
theorem EndsAlike.restoring {holds : α → β → Prop} {action : Run α} {action' : Run β}
    (agrees : EndsAlike excused stopped (fun value value' left right => holds value value' ∧ stopped left right)
      (action left) (action' right)) :
    EndsAlike excused (fun left right => stopped left right ∧ left.bindings = .empty ∧ right.bindings = .empty)
      (fun value value' left right =>
        holds value value' ∧ stopped left right ∧ left.bindings = .empty ∧ right.bindings = .empty)
      (Run.restoring action left) (Run.restoring action' right) := by
  simp only [Run.restoring, empty, empty']
  generalize action left = result at agrees
  generalize action' right = result' at agrees
  cases agrees with
  | ok result => exact .ok ⟨result.1, blind _ _ _ _ result.2, undoTo_mark_empty _, undoTo_mark_empty _⟩
  | stop alike states => exact .stop alike ⟨blind _ _ _ _ states, undoTo_mark_empty _, undoTo_mark_empty _⟩
  | first lacks => exact .first lacks
  | second lacks => exact .second lacks

/-- Machines without variables read a text alike. -/
theorem EndsAlike.reading (begins : stopped left right) {action : Supplied SyntaxError γ}
    {holds : α → β → Machine → Machine → Prop} {next : γ → Run α} {next' : γ → Run β}
    (rest : ∀ value count, action 0 = .ok value count →
      EndsAlike excused stopped holds (next value { left with bindings := Bindings.empty.reserve count })
        (next' value { right with bindings := Bindings.empty.reserve count })) :
    EndsAlike excused stopped holds ((Run.supplied .reading action >>= next) left)
      ((Run.supplied .reading action >>= next') right) := by
  have size : left.bindings.size = 0 := by rw [empty]; rfl
  have size' : right.bindings.size = 0 := by rw [empty']; rfl
  match read : action 0 with
  | .error error count =>
    rw [Run.supplied_bind_error (size ▸ read), Run.supplied_bind_error (size' ▸ read)]
    exact .stop rfl (blind _ _ _ _ begins)
  | .ok value count =>
    rw [Run.supplied_bind_ok (size ▸ read), Run.supplied_bind_ok (size' ▸ read), empty, empty']
    exact rest value count read

end

/-- Machines that are alike and at rest: they have no variables. -/
structure Idle (start start' : Procedures) (left right : Machine) : Prop where
  /-- The machines are alike. -/
  alike : Machine.Alike start start' left right
  /-- The first one has no variables. -/
  bindings : left.bindings = .empty
  /-- Nor has the second one. -/
  bindings' : right.bindings = .empty

theorem Idle.symm (idle : Idle start start' left right) : Idle start' start right left :=
  ⟨idle.alike.symm, idle.bindings', idle.bindings⟩

/-- The clauses of a text, if it can be read. -/
def clausesOf (text : String) : List Term :=
  match readProgram text 0 with
  | .ok reads _ => reads.map ReadTerm.term
  | .error _ _ => []

theorem mem_clausesOf {text : String} {next : Nat} (ended : readProgram text 0 = .ok reads next) {read : ReadTerm}
    (member : read ∈ reads) : read.term ∈ clausesOf text := by
  rw [clausesOf, ended]
  exact List.mem_map_of_mem member

namespace Idle

variable {start start' : Procedures} {excused : Bool} {fuel fuel' : Nat} {text : String}

/-- Machines at rest consult a text alike. -/
theorem consult (idle : Idle start start' left right) (fuels : Fuels excused fuel fuel')
    (named : ∀ clause ∈ clausesOf text, clause.Named Unreserved) :
    EndsAlike excused (Idle start start')
      (fun added added' left right => added' = added ∧ Idle start start' left right)
      (Machine.consult fuel text left) (Machine.consult fuel' text right) := by
  -- One of the machines is ahead, and the machines may change places.
  wlog le : left.barriers ≤ right.barriers generalizing start start' left right excused fuel fuel'
  · have turned := (this idle.symm fuels.flip (Nat.le_of_not_le le)).flip
    rw [Bool.not_not] at turned
    refine (turned.imp ?_).impStopped fun _ _ => Idle.symm
    exact fun _ _ _ _ ⟨same, idle'⟩ => ⟨same.symm, idle'.symm⟩
  have blind (left right : Machine) (bindings bindings' : Bindings) (alike : Machine.Alike start start' left right) :
      Machine.Alike start start' { left with bindings := bindings } { right with bindings := bindings' } := { alike with }
  have inner : EndsAlike excused (Machine.Alike start start')
      (fun added added' left right => added' = added ∧ Machine.Alike start start' left right)
      ((Run.supplied .reading (readProgram text) >>= consultClauses fuel) left)
      ((Run.supplied .reading (readProgram text) >>= consultClauses fuel') right) := by
    refine EndsAlike.reading blind idle.bindings idle.bindings' idle.alike fun reads count read => ?_
    have consults : Consults start start' _ count { left with bindings := Bindings.empty.reserve count }
        { right with bindings := Bindings.empty.reserve count } :=
      ⟨{ idle.alike with }, (Nat.add_sub_of_le le).symm, vacant_reserve_empty count, vacant_reserve_empty count⟩
    refine consults.consultClauses fuels ?_ ?_
    · exact fun clause member => named clause.term (mem_clausesOf read member)
    · exact fun clause member => (readProgram_below read clause member).1
  refine ((inner.restoring blind idle.bindings idle.bindings').imp ?_).impStopped ?_
  · exact fun _ _ _ _ ⟨same, alike, empty, empty'⟩ => ⟨same, alike, empty, empty'⟩
  · exact fun _ _ ⟨alike, empty, empty'⟩ => ⟨alike, empty, empty'⟩

end Idle

/-! ## Machines that were started -/

/-- Runs a reader on the tokens of some characters. -/
def readFrom {α : Type} (size : Nat) (reader : Nat → Reader α) (chars : List Char) : Supplied SyntaxError α := fun next =>
  match tokensFrom false 0 chars with
  | .error error => .error error next
  | .ok tokens =>
    match reader tokens.length ⟨tokens, size, next, []⟩ with
    | .ok read reading => .ok read reading.next
    | .error error reading => .error error reading.next

theorem readWith_eq (text : String) (reader : Nat → Reader α) :
    readWith text reader = readFrom text.utf8ByteSize reader text.toList := rfl

theorem Machine.consult_eq (fuel : Nat) (text : String) :
    consult fuel text = Run.restoring (Run.supplied .reading
      (readFrom text.utf8ByteSize (fun bound => Reader.clauses bound bound) text.toList) >>= consultClauses fuel) := by
  rw [consult, readProgram, readWith_eq]

set_option maxRecDepth 20000 in
/-- The library mentions ordinary names only, and it has no directives. -/
theorem library_ordinary : ∀ clause ∈ clausesOf libraryText,
    (∀ name ∈ clause.names, name.toList.take 4 ≠ ['d', 'o', '_', '_']) ∧ clause.unary? ":-" = none := by
  -- The characters are taken from the literal, since decoding the text takes long.
  rw [clausesOf, readProgram, readWith_eq, show libraryText = String.ofList _ from rfl, String.toList_ofList]
  decide +kernel

theorem library_named : ∀ clause ∈ clausesOf libraryText, clause.Named Unreserved :=
  fun clause member name mentioned => ordinary_unreserved name ((library_ordinary clause member).1 name mentioned)

theorem Finished.bind {action : Run α} {next : α → Run β} {machine : Machine} (begins : Finished (action machine))
    (rest : ∀ value after, action machine = .ok value after → Finished (next value after)) :
    Finished ((action >>= next) machine) := by
  simp only [Bind.bind, EStateM.bind]
  match ended : action machine with
  | .ok value after => exact rest value after ended
  | .error (.error _) _ => trivial
  | .error .exhausted _ =>
    rw [ended] at begins
    exact begins

namespace Machine

theorem finished_prepareWith (outside : VarSet) (goal : Term) (machine : Machine) :
    Finished (prepareWith outside goal machine) := by
  unfold prepareWith
  rw [Run.get_bind]
  cases machine.settings.expandsAhead with
  | true =>
    simp only [if_true, Run.compiling]
    cases Compiler.expandGoal goal outside ⟨machine.bindings.size, machine.procedures⟩ <;> trivial
  | false => cases settleGoal goal outside <;> trivial

/-- What is no directive is prepared without a search, and it is no directive afterwards. -/
theorem finished_prepareClause {clause : Term} (notDirective : clause.unary? ":-" = none) (machine : Machine) :
    Finished (prepareClause clause machine) ∧
      ∀ treated after, prepareClause clause machine = .ok treated after → treated.1.unary? ":-" = none := by
  rcases Term.clause_cases clause with ⟨head, body, rfl⟩ | ⟨goal, rfl⟩ | ⟨notRule, _⟩
  · rw [prepareClause_rule]
    refine ⟨(finished_prepareWith head.vars body machine).bind fun _ _ _ => trivial, fun treated after ended => ?_⟩
    obtain ⟨part, between, _, rfl, rfl⟩ := exists_of_bind ended
    rfl
  · simp [Term.unary, Term.unary?] at notDirective
  · rw [prepareClause_fact notRule notDirective]
    refine ⟨trivial, ?_⟩
    rintro _ _ ⟨rfl, rfl⟩
    exact notDirective

theorem finished_addClause (clause : Term) (machine : Machine) : Finished (addClause clause machine) := by
  unfold addClause
  rw [Run.get_bind]
  cases machine.program.add clause <;> trivial

/-- Clauses without directives are dealt with without a search. -/
theorem finished_consultClauses (fuel : Nat) {reads : List ReadTerm}
    (notDirectives : ∀ read ∈ reads, read.term.unary? ":-" = none) (machine : Machine) :
    Finished (consultClauses fuel reads machine) := by
  induction reads generalizing machine with
  | nil => trivial
  | cons read reads ih =>
    obtain ⟨notDirective, rest⟩ := List.forall_mem_cons.mp notDirectives
    obtain ⟨finished, kept⟩ := finished_prepareClause notDirective machine
    unfold consultClauses
    refine finished.bind ?_
    rintro ⟨clause, findings⟩ after ended
    dsimp only
    rw [Run.report_bind]
    simp only [kept _ _ ended]
    exact (finished_addClause _ _).bind fun _ _ _ => (ih rest _).bind fun _ _ _ => trivial

/-- A text without directives is consulted without a search. -/
theorem finished_consult (fuel : Nat) {text : String} (notDirectives : ∀ clause ∈ clausesOf text, clause.unary? ":-" = none)
    {machine : Machine} (empty : machine.bindings = .empty) : Finished (consult fuel text machine) := by
  have size : machine.bindings.size = 0 := by rw [empty]; rfl
  have inner : Finished ((Run.supplied .reading (readProgram text) >>= consultClauses fuel) machine) := by
    match read : readProgram text 0 with
    | .error error next =>
      rw [Run.supplied_bind_error (size ▸ read)]
      trivial
    | .ok reads next =>
      rw [Run.supplied_bind_ok (size ▸ read)]
      exact finished_consultClauses fuel (fun clause member => notDirectives _ (mem_clausesOf read member)) _
  unfold consult Run.restoring
  dsimp only
  match ended : (Run.supplied .reading (readProgram text) >>= consultClauses fuel) machine with
  | .ok _ _ => trivial
  | .error (.error _) _ => trivial
  | .error .exhausted _ =>
    rw [ended] at inner
    exact inner

end Machine

theorem Procedures.Reachable.evolved (reachable : procedures.Reachable) : procedures.Evolved procedures := by
  refine ⟨.refl _, reachable.sound, ?_⟩
  induction reachable with
  | empty => exact ordered_empty
  | goal _ next goal outside _ ih => exact (Compiler.kept_maintains.expandGoal goal outside ⟨next, _⟩ ih).2
  | clause _ next clause _ ih => exact (Compiler.kept_maintains.expandClause clause ⟨next, _⟩ ih).2
  | loop _ next specs body shared _ ih => exact (Compiler.kept_maintains.compileLoop specs body shared ⟨next, _⟩ ih).2

section

variable {excused : Bool} {stopped : Machine → Machine → Prop} {α β : Type} {holds : α → β → Machine → Machine → Prop}
  {result : EStateM.Result Stop Machine α} {result' : EStateM.Result Stop Machine β}

/-- Runs that agree leave related machines behind. -/
theorem EndsAlike.after (agrees : EndsAlike excused stopped holds result result') (finished : Finished result)
    (finished' : Finished result') (ended : ∀ value value' left right, holds value value' left right → stopped left right) :
    stopped (Machine.after result) (Machine.after result') := by
  cases agrees with
  | ok result => exact ended _ _ _ _ result
  | stop _ states => exact states
  | first _ => exact absurd finished id
  | second _ => exact absurd finished' id

end

/-- Machines start alike, whatever is in their stores. -/
theorem idle_start (settings : Settings) {procedures' : Procedures} (reachable : procedures.Reachable)
    (reachable' : procedures'.Reachable) :
    Idle procedures procedures' (Machine.start settings procedures) (Machine.start settings procedures') := by
  have alike : Machine.Alike procedures procedures' { settings := settings, procedures := procedures }
      { settings := settings, procedures := procedures' } :=
    ⟨rfl, reachable.evolved, reachable'.evolved, .refl _ _, .nil⟩
  have idle : Idle procedures procedures' { settings := settings, procedures := procedures }
      { settings := settings, procedures := procedures' } := ⟨alike, rfl, rfl⟩
  have notDirectives : ∀ clause ∈ clausesOf libraryText, clause.unary? ":-" = none :=
    fun clause member => (library_ordinary clause member).2
  exact (idle.consult (show Fuels true 0 0 from Nat.le_refl 0) library_named).after
    (finished_consult 0 notDirectives idle.bindings) (finished_consult 0 notDirectives idle.bindings')
    fun _ _ _ _ => And.right

end HornLoops
