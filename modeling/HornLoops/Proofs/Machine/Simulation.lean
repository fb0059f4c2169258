import HornLoops.Proofs.Machine.Threaded
import HornLoops.Proofs.Machine.Turns

/-!
# Searches side by side

Goals that ask for the same have the same solutions on machines in corresponding states, if the continuations that the
solutions are handed to agree. What is left to be shown for this are calls, which may be calls of different procedures
for the same loop, and loops that are reached, for which different procedures may be made. The rest is an induction over
the fuel.
-/

namespace HornLoops

open Bindings Machine

/-! ## Calls -/

variable {name : String} {entries entries' : List ProcedureEntry} {program program' : Program}

/-- No procedure has an unreserved name. -/
theorem Procedures.Sound.named?_eq_none {procedures : Procedures} (sound : procedures.Sound)
    (unreserved : Unreserved name) : procedures.named? name = none := by
  rw [named?, List.find?_eq_none]
  intro procedure member
  obtain ⟨entry, inside, rfl⟩ := List.mem_map.mp member
  obtain ⟨number, _, same⟩ := sound.named entry inside
  simpa [same] using (unreserved number).symm

theorem Term.allowed_of_nameArity? {allowed : String → Prop} {term : Term} (named : term.Named allowed) {arity : Nat}
    (own : term.nameArity? = some (name, arity)) : allowed name := by
  cases term with
  | var id => simp [nameArity?] at own
  | int value => simp [nameArity?] at own
  | atom other =>
    simp only [nameArity?, Option.some.injEq, Prod.mk.injEq] at own
    exact own.1 ▸ named_atom.mp named
  | compound other first rest =>
    simp only [nameArity?, Option.some.injEq, Prod.mk.injEq] at own
    exact own.1 ▸ (named_compound.mp named).1

/-- The clauses for a predicate are those that correspond to each other. -/
theorem Clause.Alike.clausesFor
    (alike : List.Forall₂ (Clause.Alike entries entries') program.clauses program'.clauses) (name : String)
    (arity : Nat) :
    List.Forall₂ (Clause.Alike entries entries') (program.clausesFor name arity) (program'.clausesFor name arity) := by
  unfold Program.clausesFor
  generalize program.clauses = clauses at alike ⊢
  generalize program'.clauses = clauses' at alike ⊢
  induction alike with
  | nil => exact .nil
  | @cons clause clause' _ _ first _ ih =>
    by_cases own : clause.head.nameArity? = some (name, arity)
    · rw [List.filter_cons_of_pos (by simpa using own), List.filter_cons_of_pos (by simpa [first.head] using own)]
      exact .cons first ih
    · rw [List.filter_cons_of_neg (by simpa using own), List.filter_cons_of_neg (by simpa [first.head] using own)]
      exact ih

/-- There are no clauses for procedures. -/
theorem Clause.Alike.clausesFor_nameOf
    (alike : List.Forall₂ (Clause.Alike entries entries') program.clauses program'.clauses) (number arity : Nat) :
    program.clausesFor (Procedures.nameOf number) arity = [] ∧
      program'.clausesFor (Procedures.nameOf number) arity = [] := by
  have pairs := Clause.Alike.clausesFor alike (Procedures.nameOf number) arity
  cases clauses : program.clausesFor (Procedures.nameOf number) arity with
  | nil =>
    rw [clauses, List.forall₂_nil_left_iff] at pairs
    exact ⟨rfl, pairs⟩
  | cons clause rest =>
    have own : clause.head.nameArity? = some (Procedures.nameOf number, arity) := by
      have member : clause ∈ program.clausesFor (Procedures.nameOf number) arity := by simp [clauses]
      simpa using (List.mem_filter.mp member).2
    rw [clauses] at pairs
    obtain ⟨clause', _, first, _, _⟩ := List.forall₂_cons_left_iff.mp pairs
    exact absurd rfl (Term.allowed_of_nameArity? first.named own number)

theorem Link.injectiveOn_of_known {link : Link} {ids : List Nat} (known : ∀ id ∈ ids, link.known id) :
    InjectiveOn link.number ids :=
  fun one member other member' => eq_of_number_eq (known one member) (known other member')

section

variable {comparison : Comparison} {world : World} (coupled : Coupled comparison world) {σ : Type}
  {related : σ → σ → Prop} {acc acc' : σ} {fuel fuel' : Nat} (fuels : comparison.Fuels fuel fuel')
  {solver solver' : Solver} (solves : Simulates comparison solver solver') {k k' : Continuation σ}
  (continues : Continues comparison world related k k') (values : related acc acc')
include coupled fuels solves continues values

variable {entry entry' : ProcedureEntry} {args args' : List Term}

/-- Procedures for the same loop do the same. -/
theorem Coupled.matches_callPaired
    (pair : SameLoop Unreserved world.left.procedures.entries world.right.procedures.entries entry entry')
    (images : List.Forall₂ (Images world.link) args args') (name name' : String) (depth : Nat) :
    Matches comparison world related
      (if entry.procedure.arity = args.length then
          callProcedure fuel solver entry.procedure args depth k acc world.left
        else (Run.fail (.unknownProcedure name args.length) : Run (Outcome σ)) world.left)
      (if entry'.procedure.arity = args'.length then
          callProcedure fuel' solver' entry'.procedure args' depth k' acc' world.right
        else (Run.fail (.unknownProcedure name' args'.length) : Run (Outcome σ)) world.right) := by
  have aligned := coupled.aligned
  have sound := aligned.store.sound.entry entry pair.registered
  have twins := SameLoop.twins ordinary_unreserved aligned.store.sound.generated aligned.store'.sound.generated pair
    sound (aligned.store'.sound.entry entry' pair.registered')
  rw [← images.length_eq, ← twins.arity]
  by_cases fits : entry.procedure.arity = args.length
  · rw [if_pos fits, if_pos fits]
    exact coupled.matches_callProcedure fuels solves continues values twins sound.below images depth
  · rw [if_neg fits, if_neg fits]
    exact .fail rfl aligned

theorem Coupled.matches_callPredicate {name : String} (named : Unreserved name)
    (images : List.Forall₂ (Images world.link) args args') (depth : Nat) :
    Matches comparison world related (callPredicate fuel solver name args depth k acc world.left)
      (callPredicate fuel' solver' name args' depth k' acc' world.right) := by
  have pairs := Clause.Alike.clausesFor comparison.clauses name args.length
  unfold callPredicate
  rw [Run.get_bind, Run.get_bind, coupled.aligned.program, coupled.aligned.program', ← images.length_eq]
  generalize comparison.program.clausesFor name args.length = clauses at pairs
  generalize comparison.program'.clausesFor name args.length = clauses' at pairs
  cases pairs with
  | nil =>
    simp only [coupled.aligned.store.sound.named?_eq_none named, coupled.aligned.store'.sound.named?_eq_none named]
    exact .fail rfl coupled.aligned
  | cons first rest =>
    refine coupled.matches_checkDepth depth (coupled.matches_newBarrier fun later inner le coupled' => ?_)
    exact coupled'.matches_tryClauses fuels solves (continues.mono le) values (le.images images) depth inner
      (.cons first rest)

/-- Calls of procedures for the same loop do the same, whatever their names are. -/
theorem Coupled.matches_callNamed
    (pair : SameLoop Unreserved world.left.procedures.entries world.right.procedures.entries entry entry')
    (images : List.Forall₂ (Images world.link) args args') (depth : Nat) :
    Matches comparison world related (callPredicate fuel solver entry.procedure.name args depth k acc world.left)
      (callPredicate fuel' solver' entry'.procedure.name args' depth k' acc' world.right) := by
  obtain ⟨number, name⟩ := coupled.exists_name pair.registered
  obtain ⟨number', name'⟩ := coupled.exists_name' pair.registered'
  have free' : world.left.program.clausesFor entry.procedure.name args.length = [] := by
    rw [coupled.aligned.program, name]
    exact (Clause.Alike.clausesFor_nameOf comparison.clauses number _).1
  have free'' : world.right.program.clausesFor entry'.procedure.name args'.length = [] := by
    rw [coupled.aligned.program', name']
    exact (Clause.Alike.clausesFor_nameOf comparison.clauses number' _).2
  rw [callPredicate_of_named free' (coupled.aligned.store.sound.named?_eq pair.registered),
    callPredicate_of_named free'' (coupled.aligned.store'.sound.named?_eq pair.registered')]
  exact coupled.matches_callPaired fuels solves continues values pair images _ _ depth

/-! ## Loops -/

variable {specs body : Term} (covers : world.link.Covers specs) (coversBody : world.link.Covers body)
include covers coversBody

omit fuels in
/-- Loops that are compiled when they are reached do the same. -/
theorem Coupled.matches_compiling (depth barrier : Nat) :
    Matches comparison world related
      ((do
        let compiled ← Run.compiling (Compiler.compileLoop specs body none)
        Run.report [] compiled.diagnostics
        solver σ compiled.goal depth barrier k acc) world.left)
      ((do
        let compiled ← Run.compiling (Compiler.compileLoop (world.link.image specs) (world.link.image body) none)
        Run.report [] compiled.diagnostics
        solver' σ compiled.goal depth (barrier + comparison.lead) k' acc') world.right) := by
  have known : ∀ id ∈ specs.occurrences ++ body.occurrences, world.link.known id :=
    List.forall_mem_append.mpr ⟨covers.vars, coversBody.vars⟩
  have inside (id : Nat) (member : id ∈ specs.occurrences ++ body.occurrences) :=
    coupled.mirrors.inside id (known id member)
  have below (id : Nat) (member : id ∈ specs.occurrences ++ body.occurrences) : id < world.left.bindings.size :=
    (inside id member).1
  have below' (id : Nat) (member : id ∈ specs.occurrences ++ body.occurrences) :
      world.link.number id < world.right.bindings.size := (inside id member).2
  have renamed : ∀ id ∈ (specs.rename world.link.number).occurrences ++ (body.rename world.link.number).occurrences,
      id < world.right.bindings.size := by
    simpa [or_imp, forall_and] using below'
  have injective := Link.injectiveOn_of_known known
  have sound : (Compilation.mk world.left.bindings.size world.left.procedures).procedures.Sound :=
    coupled.aligned.store.sound
  have sound' : (Compilation.mk world.right.bindings.size world.right.procedures).procedures.Sound :=
    coupled.aligned.store'.sound
  have alike := Compiler.compileLoop_alike sound sound' injective below below'
  have store := coupled.aligned.store.compileLoop world.left.bindings.size below
  have store' := coupled.aligned.store'.compileLoop world.right.bindings.size renamed
  rw [Link.image, Link.image]
  rcases alike.ends with ⟨loop, after, loop', after', compiled, compiled', stores⟩ |
    ⟨error, after, error', after', compiled, compiled', same, stores⟩
  · rw [Compiler.storeAfter_ok compiled] at store
    rw [Compiler.storeAfter_ok compiled'] at store'
    rw [Run.compiling_bind_ok compiled, Run.compiling_bind_ok compiled', Run.report_bind, Run.report_bind]
    have names : world.link.allowed = Unreserved := coupled.allowed
    obtain ⟨goals, taken, room, room', fresh⟩ := Compiler.counterpart_compileLoop sound sound' ordinary_unreserved
      (names ▸ covers.names) (names ▸ coversBody.names) injective below below' compiled compiled'
    generalize reached : ({ world.left with
      bindings := world.left.bindings.reserve after.next
      procedures := after.procedures
      warnings := world.left.warnings ++ loop.diagnostics.map (LoopWarning.ofDiagnostic []) } : Machine) = left
    generalize reached' : ({ world.right with
      bindings := world.right.bindings.reserve after'.next
      procedures := after'.procedures
      warnings := world.right.warnings ++ loop'.diagnostics.map (LoopWarning.ofDiagnostic []) } : Machine) = right
    have aligned : Aligned comparison left right := by
      subst reached reached'
      exact { coupled.aligned.grow store store' stores with }
    have bindings : left.bindings = world.left.bindings.reserve after.next := by rw [← reached]
    have bindings' : right.bindings = world.right.bindings.reserve after'.next := by rw [← reached']
    have procedures : left.procedures = after.procedures := by rw [← reached]
    have procedures' : right.procedures = after'.procedures := by rw [← reached']
    rw [← procedures] at store goals
    rw [← procedures'] at store' goals
    have coupled' : Coupled comparison (coupled.extended taken left right) :=
      coupled.coupled_extended aligned bindings room bindings' room'
    have le : world.Later (coupled.extended taken left right) :=
      coupled.later_extended bindings bindings' store.grown store'.grown
    refine coupled.matches_later (solves coupled' (coupled'.goalsAlike goals ?_) depth barrier (continues.mono le) values)
      ⟨_, bindings⟩ ⟨_, bindings'⟩ store.grown store'.grown
    intro id occurs
    rcases fresh id occurs with old | new
    · exact coupled.known_extended.mpr (.inl (known id (List.mem_append_left _ old)))
    · exact coupled.known_extended.mpr (.inr new)
  · rw [Compiler.storeAfter_error compiled] at store
    rw [Compiler.storeAfter_error compiled'] at store'
    rw [Run.compiling_bind_error compiled, Run.compiling_bind_error compiled']
    exact .stop (congrArg ErrorKind.loop same.symm) { coupled.aligned.grow store store' stores with }

omit fuels solves continues values coversBody in
/-- A loop can be planned on both sides or on none. -/
theorem Coupled.exists_threads :
    (∃ spec threads after, LoopSpec.ofTerm specs = .ok spec ∧
        spec.threads world.left.bindings.size = .ok threads after ∧
        (spec.rename world.link.number).threads world.right.bindings.size =
          .ok (threads.rename (shift world.link.number world.left.bindings.size world.right.bindings.size))
            (world.right.bindings.size + (after - world.left.bindings.size)) ∧
        LoopSpec.ofTerm (world.link.image specs) = .ok (spec.rename world.link.number)) ∨
      ∃ error next error' next',
        (∀ body, planLoop specs body world.left.bindings.size = .error error next) ∧
          (∀ body, planLoop (world.link.image specs) body world.right.bindings.size = .error error' next') ∧
          error'.fault = error.fault := by
  cases read : LoopSpec.ofTerm specs with
  | error error =>
    obtain ⟨error', read', same⟩ := LoopSpec.fault_ofTerm_rename world.link.number read
    exact .inr ⟨error, _, error', _, fun body => planLoop_unread read body _, fun body => planLoop_unread read' body _,
      same⟩
  | ok spec =>
    have read' := LoopSpec.ofTerm_rename world.link.number read
    rcases LoopSpec.tandem_threads world.link.number spec world.left.bindings.size world.right.bindings.size with
      ⟨threads, after, _, _, threaded, _, _⟩ | ⟨error, next, error', next', failed, failed', same⟩
    · have below (id : Nat) (member : id ∈ spec.occurrences) : id < world.left.bindings.size :=
        (coupled.mirrors.inside id (covers.vars id (LoopSpec.mem_occurrences_of_ofTerm read member))).1
      exact .inl ⟨spec, threads, after, rfl, threaded, LoopSpec.threads_shift world.link.number threaded below _, read'⟩
    · exact .inr ⟨error, next, error', next', fun body => planLoop_unthreaded read failed body,
        fun body => planLoop_unthreaded read' failed' body, same⟩

/-- Loops that are carried out from their plans when they are reached do the same. -/
theorem Coupled.matches_planning (depth barrier : Nat) :
    Matches comparison world related
      ((do
        let plan ← Run.supplied .loop (planLoop specs body)
        interpret fuel solver plan depth barrier k acc) world.left)
      ((do
        let plan ← Run.supplied .loop (planLoop (world.link.image specs) (world.link.image body))
        interpret fuel' solver' plan depth (barrier + comparison.lead) k' acc') world.right) := by
  rcases coupled.exists_threads covers with
    ⟨spec, threads, after, read, threaded, threaded', planned⟩ | ⟨error, next, error', next', planned, planned', same⟩
  · have own : ∀ id ∈ spec.occurrences, world.link.known id := fun id member =>
      covers.vars id (LoopSpec.mem_occurrences_of_ofTerm read member)
    obtain ⟨count, rfl⟩ := Nat.exists_eq_add_of_le (LoopSpec.le_of_threads threaded)
    rw [Nat.add_sub_cancel_left] at threaded'
    rw [Run.supplied_bind_ok (planLoop_eq_ok read threaded body),
      Run.supplied_bind_ok (planLoop_eq_ok planned threaded' (world.link.image body))]
    have coupled' := coupled.coupled_taken count
    have le := coupled.later_taken count
    have known : ∀ id ∈ threads.occurrences ++ body.occurrences, (coupled.taken count).link.known id := by
      intro id member
      rcases List.mem_append.mp member with member | member
      · rcases LoopSpec.mem_occurrences_of_threads threaded member with old | new
        · exact le.link.known id (own id old)
        · exact coupled.known_extended.mpr (.inr new)
      · exact le.link.known id (coversBody.vars id member)
    have allowed : world.link.allowed = Unreserved := coupled.allowed
    have namedSpec := LoopSpec.named_of_ofTerm ordinary_unreserved read (allowed ▸ covers.names)
    have mentions := LoopSpec.mentions_threads ordinary_unreserved namedSpec _ _ _ threaded
    have inside {terms : List Term} (part : terms ⊆ threads.prelude ++ threads.initial) :
        ∀ term ∈ terms, ∀ id ∈ term.occurrences, (coupled.taken count).link.known id := by
      intro term member id occurs
      apply known
      simp only [Threads.occurrences, Term.occurrencesAll_eq_flatMap, List.flatMap_append, List.mem_append, List.mem_flatMap]
      rcases List.mem_append.mp (part member) with member | member
      · exact .inl (.inl (.inl (.inl (.inr ⟨term, member, occurs⟩))))
      · exact .inl (.inl (.inl (.inl (.inl (.inl ⟨term, member, occurs⟩)))))
    have sameBody : world.link.image body = body.rename (coupled.taken count).link.number :=
      (le.link.image_eq coversBody).symm
    rw [sameBody]
    apply coupled.matches_taken count
    have plans := LoopPlan.alike_rename mentions (allowed ▸ coversBody.names) (Link.injectiveOn_of_known known)
    refine plans.matches_interpret coupled' fuels solves (continues.mono le) values ?_ ?_ depth barrier
    · refine .plain ⟨⟨?_, ?_⟩, ?_⟩
      · intro id occurs
        rw [Term.occurrences_conjunction] at occurs
        obtain ⟨term, member, occurs⟩ := List.mem_flatMap.mp occurs
        exact inside (List.subset_append_left _ _) term member id occurs
      · rw [coupled'.allowed]
        exact Term.named_conjunction ordinary_unreserved mentions.prelude
      · rw [Link.image, Term.rename_conjunction]
        rfl
    · refine Images.of_forall fun term member => ⟨inside (List.subset_append_right _ _) term member, ?_⟩
      rw [coupled'.allowed]
      exact mentions.initial term member
  · rw [Run.supplied_bind_error (planned body), Run.supplied_bind_error (planned' (world.link.image body))]
    exact .stop (congrArg ErrorKind.loop same.symm) { coupled.aligned with }

/-! ## Goals -/

omit covers coversBody

theorem Coupled.matches_solveLoop {specs specs' body body' : Term} (images : Images world.link specs specs')
    (inside : Images world.link body body') (depth barrier : Nat) :
    Matches comparison world related (solveLoop fuel solver specs body depth barrier k acc world.left)
      (solveLoop fuel' solver' specs' body' depth (barrier + comparison.lead) k' acc' world.right) := by
  obtain ⟨covers, rfl⟩ := images
  obtain ⟨coversBody, rfl⟩ := inside
  have ordinary : Ordinary world.link.allowed := coupled.allowed ▸ ordinary_unreserved
  unfold solveLoop
  rw [Run.get_bind, Run.get_bind]
  rcases coupled.mirrors.threaded ordinary covers coversBody with
    ⟨term, threaded, whole, threaded'⟩ | ⟨error, error', threaded, threaded', same⟩
  · rw [threaded, threaded', coupled.aligned.settings, coupled.aligned.settings']
    cases mode : comparison.settings.mode with
    | compiled => exact coupled.matches_compiling solves continues values whole coversBody depth barrier
    | interpreted => exact coupled.matches_planning fuels solves continues values whole coversBody depth barrier
  · rw [threaded, threaded']
    exact .fail (congrArg ErrorKind.loop same.symm) coupled.aligned

omit coupled fuels solves continues values in
/-- Further arguments are added alike, or on no side. -/
theorem Coupled.withArgs_alike {target target' : Term} {extra extra' : List Term}
    (images : Images world.link target target') (others : List.Forall₂ (Images world.link) extra extra') :
    (∃ goal goal', Goal.withArgs target extra = .ok goal ∧ Goal.withArgs target' extra' = .ok goal' ∧
        Images world.link goal goal') ∨
      ∃ error error', Goal.withArgs target extra = .error error ∧ Goal.withArgs target' extra' = .error error' ∧
        error.kind = error'.kind := by
  obtain ⟨covers, rfl⟩ := images
  obtain ⟨coversOthers, rfl⟩ := Images.forall₂ others
  match extra with
  | [] => exact .inl ⟨target, world.link.image target, rfl, rfl, covers, rfl⟩
  | first :: rest =>
    cases target with
    | var id => exact .inr ⟨_, _, rfl, rfl, rfl⟩
    | int value => exact .inr ⟨_, _, rfl, rfl, rfl⟩
    | atom name =>
      refine .inl ⟨_, _, rfl, rfl, Link.covers_build.mpr ⟨Link.covers_atom.mp covers, coversOthers⟩, ?_⟩
      rw [Link.image_build]
    | compound name argument args =>
      obtain ⟨named, one, others⟩ := Link.covers_compound.mp covers
      refine .inl ⟨_, _, rfl, by rw [Link.image_compound]; rfl, Link.covers_compound.mpr ⟨named, one, ?_⟩, ?_⟩
      · exact List.forall_mem_append.mpr ⟨others, coversOthers⟩
      · rw [Link.image_compound, List.map_append]

/-- What goals ask for is done alike. -/
theorem AsksAlike.matches_achieve {asked asked' : Goal} (alike : AsksAlike coupled asked asked') (depth barrier : Nat) :
    Matches comparison world related (achieve fuel solver asked depth barrier k acc world.left)
      (achieve fuel' solver' asked' depth (barrier + comparison.lead) k' acc' world.right) := by
  cases alike with
  | succeed => exact continues world acc acc' (.refl _) coupled values
  | fail => exact coupled.matches_pure rfl values
  | cut =>
    refine (continues world acc acc' (.refl _) coupled values).bind ?_
    rintro ⟨signal, acc⟩ ⟨signal', acc'⟩ left right ⟨rfl, values, returned⟩
    exact .ok ⟨Signal.orCut_ahead _ _ _, values, returned⟩
  | both first second =>
    refine solves coupled first depth barrier ?_ values
    intro later acc acc' le coupled' values
    exact solves coupled' (le.goalsAlike second) depth barrier (continues.mono le) values
  | @either left left' right right' first second =>
    show Matches comparison world related
      ((Run.walk left >>= _) world.left) ((Run.walk left' >>= _) world.right)
    rw [Run.walk_bind, Run.walk_bind]
    have walked := coupled.goalsAlike_walk first
    have conditional := coupled.goalsAlike_binary? walked
    cases found : (world.left.bindings.walk left).binary? "->" <;>
      cases found' : (world.right.bindings.walk left').binary? "->" <;> rw [found, found'] at conditional
    · exact coupled.matches_solveEither solves continues values walked second depth barrier
    · contradiction
    · contradiction
    · obtain ⟨condition, consequence⟩ := Option.rel_some_some.mp conditional
      exact coupled.matches_solveIf solves continues values condition consequence (.some second) depth barrier
  | ifThen first second => exact coupled.matches_solveIf solves continues values first second .none depth barrier
  | «unless» inside => exact coupled.matches_solveUnless solves continues values inside depth
  | @confined inner inner' inside =>
    show Matches comparison world related
      ((Run.walk inner >>= _) world.left) ((Run.walk inner' >>= _) world.right)
    rw [Run.walk_bind, Run.walk_bind]
    exact coupled.matches_solveConfined solves continues values (coupled.goalsAlike_walk inside) depth
  | @call target target' extra extra' images others =>
    show Matches comparison world related
      ((Run.walk target >>= _) world.left) ((Run.walk target' >>= _) world.right)
    rw [Run.walk_bind, Run.walk_bind]
    have walked := coupled.images_walk images
    rcases Coupled.withArgs_alike walked others with
      ⟨goal, goal', built, built', same⟩ | ⟨error, error', failed, failed', same⟩
    · rw [built, built']
      exact coupled.matches_solveConfined solves continues values (.plain same) depth
    · rw [failed, failed']
      exact .fail same coupled.aligned
  | loop images inside => exact coupled.matches_solveLoop fuels solves continues values images inside depth barrier
  | collect images inside images' =>
    exact coupled.matches_solveCollect fuels solves continues values images (.plain inside) images' depth
  | builtin effects => exact coupled.matches_perform fuels continues values (effects fuels)
  | predicate named images => exact coupled.matches_callPredicate fuels solves continues values named images depth
  | procedure pair images => exact coupled.matches_callNamed fuels solves continues values pair images depth

end

/-- Searches for goals that ask for the same agree. -/
theorem simulates_solve (comparison : Comparison) {fuel fuel' : Nat} (fuels : comparison.Fuels fuel fuel') :
    Simulates comparison (solve fuel) (solve fuel') := by
  refine Fuels.induct (motive := fun fuel fuel' => Simulates comparison (solve fuel) (solve fuel'))
    ?_ ?_ ?_ fuels
  · intro excused fuel' σ related world coupled goal goal' alike depth barrier k k' continues acc acc' values
    exact .first excused
  · intro excused fuel σ related world coupled goal goal' alike depth barrier k k' continues acc acc' values
    exact .second excused
  · intro fuel fuel' fuels ih σ related world coupled goal goal' alike depth barrier k k' continues acc acc' values
    show Matches comparison world related ((Run.walk goal >>= _) world.left) ((Run.walk goal' >>= _) world.right)
    rw [Run.walk_bind, Run.walk_bind]
    rcases coupled.asksAlike_ofTerm (coupled.goalsAlike_walk alike) with
      ⟨asked, asked', found, found', asks⟩ | ⟨error, error', failed, failed', same⟩
    · rw [found, found']
      exact asks.matches_achieve coupled fuels ih continues values depth barrier
    · rw [failed, failed']
      exact .fail same coupled.aligned

end HornLoops
