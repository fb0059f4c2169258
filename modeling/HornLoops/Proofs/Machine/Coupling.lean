import HornLoops.Proofs.Bindings.Reflection
import HornLoops.Proofs.Loop.Agreement
import HornLoops.Proofs.Loop.Registry
import HornLoops.Proofs.Machine.EndsAlike

/-!
# Machines side by side

Two runs are compared that do the same on different machines. The machines have the same settings, and programs whose
clauses differ in the procedures that are called for the same loop only. Their stores of procedures may hold procedures
for different loops, and the bindings of one mirror those of the other up to a link. What the runs ask for may differ in
the procedures that are called for the same loop, and the barriers of one run may be ahead of those of the other by a
fixed number. Terms mention no names of procedures, so that procedures are reached through loops only.
-/

namespace HornLoops

namespace Bindings

theorem reserve_zero (bindings : Bindings) : bindings.reserve 0 = bindings := by simp [reserve]

theorem reserve_reserve (bindings : Bindings) (size more : Nat) :
    (bindings.reserve size).reserve more = bindings.reserve (max size more) := by
  apply ext_lookup?
  · simp only [size_reserve]
    omega
  · simp
  · simp

end Bindings

open Bindings

/-! ## What is compared -/

/-- Names that no procedure has. -/
def Unreserved (name : String) : Prop := ∀ number, name ≠ Procedures.nameOf number

theorem ordinary_unreserved : Ordinary Unreserved :=
  fun _ other number same => Procedures.nameOf_ne other number same.symm

/-- Clauses that differ in the procedures that are called for the same loop only. -/
structure Clause.Alike (entries entries' : List ProcedureEntry) (clause clause' : Clause) : Prop where
  /-- They have the same head. -/
  head : clause'.head = clause.head
  /-- They have the same number of variables. -/
  width : clause'.width = clause.width
  /-- The head mentions no names of procedures. -/
  named : clause.head.Named Unreserved
  /-- The variables of the head are numbered from zero on. -/
  below : clause.head.Below clause.width
  /-- So are the variables of the body. -/
  inside : clause.body.Below clause.width
  /-- The bodies ask for the same. -/
  body : Counterpart (Renamed Unreserved id) (SameLoop Unreserved entries entries') clause.body clause'.body

namespace Clause.Alike

variable {entries entries' : List ProcedureEntry} {clause clause' : Clause}

variable (alike : clause.Alike entries entries' clause')
include alike

/-- Larger stores do no harm. -/
theorem mono {many many' : List ProcedureEntry} (subset : entries ⊆ many) (subset' : entries' ⊆ many') :
    clause.Alike many many' clause' :=
  { alike with body := alike.body.imp (fun _ _ => id) fun _ _ same => same.mono subset subset' }

/-- The clauses have the same variables. -/
theorem occurrences_body :
    clause'.body.occurrences = clause.body.occurrences := by rw [alike.body.occurrences_eq, List.map_id]

theorem symm : clause'.Alike entries' entries clause where
  head := alike.head.symm
  width := alike.width.symm
  named := alike.head.symm ▸ alike.named
  below := by
    rw [alike.head, alike.width]
    exact alike.below
  inside := by
    rw [Term.Below, alike.occurrences_body, alike.width]
    exact alike.inside
  body := alike.body.flip (fun _ _ => Renamed.symm) fun _ _ => SameLoop.symm

/-- A clause is like itself. -/
theorem refl_right : clause'.Alike entries' entries' clause' :=
  { alike.symm with
    head := rfl
    width := rfl
    body := alike.body.refl_right (fun _ _ => Renamed.refl_right) fun _ _ => SameLoop.refl_right }

end Clause.Alike

/-- A store that grew from another one by compiling. -/
structure Procedures.Evolved (start now : Procedures) : Prop where
  /-- Procedures were only added. -/
  grown : start.Extends now
  /-- The store is sound. -/
  sound : now.Sound
  /-- The store is in order. -/
  ordered : now.Ordered

theorem Procedures.Evolved.trans {first second third : Procedures} (one : first.Evolved second)
    (other : second.Evolved third) : first.Evolved third :=
  ⟨one.grown.trans other.grown, other.sound, other.ordered⟩

variable {start now : Procedures} {α : Type} {comparison : Comparison} {link : Link} {terms : List Term}
  {world : World}

theorem Procedures.Evolved.refl (evolved : start.Evolved now) : now.Evolved now :=
  ⟨.refl now, evolved.sound, evolved.ordered⟩

/-- Compiling lets a store grow, whether it fails or not. -/
theorem Procedures.Evolved.storeAfter (evolved : start.Evolved now) {next : Nat} {action : Compiler α}
    {holds : α → Compilation → Prop} (reaches : Compiler.Reaches action ⟨next, now⟩ holds)
    (keeps : Compiler.Keeps Maintains action) : now.Evolved (Compiler.storeAfter action ⟨next, now⟩) :=
  have maintained := keeps ⟨next, now⟩ evolved.ordered
  ⟨maintained.1, reaches.storeAfter, maintained.2⟩

theorem Procedures.Evolved.compileLoop (evolved : start.Evolved now) (next : Nat) {specs body : Term}
    (below : ∀ id ∈ specs.occurrences ++ body.occurrences, id < next) :
    now.Evolved (Compiler.storeAfter (Compiler.compileLoop specs body none) ⟨next, now⟩) := by
  have bounded : ∀ id ∈ specs.occurrences ++ body.occurrences ++ (none : Option VarSet).getD [], id < next := by
    simpa using below
  exact evolved.storeAfter (Compiler.reaches_compileLoop ⟨next, now⟩ evolved.sound bounded)
    (Compiler.kept_maintains.compileLoop specs body none)

/-- What stays the same while two runs are compared. -/
structure Comparison where
  /-- The settings of both machines. -/
  settings : Settings
  /-- The program of the first machine. -/
  program : Program
  /-- The program of the second machine. -/
  program' : Program
  /-- The procedures that the first machine has at the start. -/
  start : Procedures
  /-- The procedures that the second machine has at the start. -/
  start' : Procedures
  /-- By how much the barriers of the second run are ahead. -/
  lead : Nat
  /-- Whether it is the first run that may run out of fuel. -/
  excused : Bool
  /-- The programs differ in the procedures that are called for the same loop only. -/
  clauses : List.Forall₂ (Clause.Alike start.entries start'.entries) program.clauses program'.clauses

/-- The run that may run out of fuel has no more of it than the other one. -/
abbrev Comparison.Fuels (comparison : Comparison) : Nat → Nat → Prop := HornLoops.Fuels comparison.excused

/-! ## Worlds -/

/-- Two machines with a link between their variables. -/
structure World where
  /-- Which variables correspond to each other. -/
  link : Link
  /-- The machine of the first run. -/
  left : Machine
  /-- The machine of the second run. -/
  right : Machine

/-- Two machines whose settings, programs, stores of procedures and barriers correspond to each other. -/
structure Aligned (comparison : Comparison) (left right : Machine) : Prop where
  /-- The settings are those that are compared. -/
  settings : left.settings = comparison.settings
  /-- The second machine has the same ones. -/
  settings' : right.settings = comparison.settings
  /-- The first machine has its program. -/
  program : left.program = comparison.program
  /-- The second machine has its program. -/
  program' : right.program = comparison.program'
  /-- The first store of procedures has grown. -/
  store : comparison.start.Evolved left.procedures
  /-- So has the second one. -/
  store' : comparison.start'.Evolved right.procedures
  /-- They have grown side by side. -/
  concordant : Concordant comparison.start.entries comparison.start'.entries left.procedures.entries
    right.procedures.entries
  /-- The barriers are ahead as they should be. -/
  barriers : right.barriers = left.barriers + comparison.lead

/-- Stores may grow side by side. -/
theorem Aligned.grow {left right : Machine} (aligned : Aligned comparison left right)
    {procedures procedures' : Procedures} (store : left.procedures.Evolved procedures)
    (store' : right.procedures.Evolved procedures')
    (stores : Concordant left.procedures.entries right.procedures.entries procedures.entries procedures'.entries) :
    Aligned comparison { left with procedures := procedures } { right with procedures := procedures' } :=
  { aligned with
    store := aligned.store.trans store
    store' := aligned.store'.trans store'
    concordant := aligned.concordant.trans stores store.grown.subset store'.grown.subset }

/-- Results of two runs that are compared, which agree. -/
abbrev Concurs (comparison : Comparison) {α β : Type} (holds : α → β → Machine → Machine → Prop) :
    EStateM.Result Stop Machine α → EStateM.Result Stop Machine β → Prop :=
  EndsAlike comparison.excused (Aligned comparison) holds

/-- Two machines in corresponding states. -/
structure Coupled (comparison : Comparison) (world : World) : Prop where
  /-- All but the bindings correspond to each other. -/
  aligned : Aligned comparison world.left world.right
  /-- Values of linked variables mention allowed names. -/
  allowed : world.link.allowed = Unreserved
  /-- The bindings mirror each other. -/
  mirrors : Mirrors world.link world.left.bindings world.right.bindings

namespace World

/-- A later world, in which more variables may be linked and bound and more procedures may be registered. -/
structure Later (world later : World) : Prop where
  /-- The link has been extended. -/
  link : world.link.Le later.link
  /-- The first bindings have grown. -/
  grown : Grown world.left.bindings later.left.bindings
  /-- So have the second ones. -/
  grown' : Grown world.right.bindings later.right.bindings
  /-- Procedures were only added to the first store. -/
  store : world.left.procedures.Extends later.left.procedures
  /-- And to the second one. -/
  store' : world.right.procedures.Extends later.right.procedures

namespace Later

theorem refl (world : World) : world.Later world := ⟨.refl _, .refl _, .refl _, .refl _, .refl _⟩

theorem trans {first second third : World} (left : first.Later second) (right : second.Later third) :
    first.Later third :=
  ⟨left.link.trans right.link, left.grown.trans right.grown, left.grown'.trans right.grown',
    left.store.trans right.store, left.store'.trans right.store'⟩

end Later

end World

/-- A term and its counterpart. -/
def Images (link : Link) (term term' : Term) : Prop := link.Covers term ∧ term' = link.image term

theorem Images.mono {few many : Link} (le : few.Le many) {term term' : Term} (images : Images few term term') :
    Images many term term' := ⟨le.covers images.1, by rw [images.2, le.image_eq images.1]⟩

theorem Images.forall₂ {terms' : List Term} (images : List.Forall₂ (Images link) terms terms') :
    (∀ term ∈ terms, link.Covers term) ∧ terms' = terms.map link.image := by
  induction images with
  | nil => simp
  | cons first _ ih => exact ⟨List.forall_mem_cons.mpr ⟨first.1, ih.1⟩, by rw [List.map_cons, first.2, ih.2]⟩

theorem Images.of_forall (covers : ∀ term ∈ terms, link.Covers term) :
    List.Forall₂ (Images link) terms (terms.map link.image) := by
  rw [List.forall₂_map_right_iff, List.forall₂_same]
  exact fun term member => ⟨covers term member, rfl⟩

theorem World.Later.images {later : World} (le : world.Later later) {terms' : List Term}
    (images : List.Forall₂ (Images world.link) terms terms') : List.Forall₂ (Images later.link) terms terms' :=
  images.imp fun _ _ => Images.mono le.link

/-- Goals of two runs that ask for the same. -/
abbrev GoalsAlike (world : World) : Term → Term → Prop :=
  Counterpart (Images world.link)
    (SameLoop Unreserved world.left.procedures.entries world.right.procedures.entries)

theorem World.Later.goalsAlike {later : World} (le : world.Later later) {goal goal' : Term}
    (alike : GoalsAlike world goal goal') : GoalsAlike later goal goal' :=
  alike.imp (fun _ _ => Images.mono le.link) fun _ _ same => same.mono le.store.subset le.store'.subset

/-- The world after searches from which nothing is left but variables that were taken and procedures that were
registered. -/
structure Returned (comparison : Comparison) (world : World) (left right : Machine) : Prop where
  /-- The first bindings are as they were, up to new variables. -/
  bindings : ∃ size, left.bindings = world.left.bindings.reserve size
  /-- So are the second ones. -/
  bindings' : ∃ size, right.bindings = world.right.bindings.reserve size
  /-- Procedures were only added to the first store. -/
  store : world.left.procedures.Extends left.procedures
  /-- And to the second one. -/
  store' : world.right.procedures.Extends right.procedures
  /-- The machines still correspond to each other. -/
  coupled : Coupled comparison ⟨world.link, left, right⟩

namespace Returned

variable {comparison : Comparison} {world : World} {left right : Machine}

theorem later (returned : Returned comparison world left right) : world.Later ⟨world.link, left, right⟩ := by
  obtain ⟨size, same⟩ := returned.bindings
  obtain ⟨size', same'⟩ := returned.bindings'
  refine ⟨.refl _, ?_, ?_, returned.store, returned.store'⟩
  · rw [same]
    exact .reserve _ size
  · rw [same']
    exact .reserve _ size'

variable (coupled : Coupled comparison world)
include coupled

/-- Machines with the bindings of before may have come from anywhere. -/
theorem of_aligned (aligned : Aligned comparison left right)
    (bindings : ∃ size, left.bindings = world.left.bindings.reserve size)
    (bindings' : ∃ size, right.bindings = world.right.bindings.reserve size)
    (store : world.left.procedures.Extends left.procedures) (store' : world.right.procedures.Extends right.procedures) :
    Returned comparison world left right := by
  refine ⟨bindings, bindings', store, store', aligned, coupled.allowed, ?_⟩
  obtain ⟨size, same⟩ := bindings
  obtain ⟨size', same'⟩ := bindings'
  show Mirrors world.link left.bindings right.bindings
  rw [same, same']
  exact coupled.mirrors.reserve size size'

theorem refl : Returned comparison world world.left world.right :=
  of_aligned coupled coupled.aligned ⟨0, (reserve_zero _).symm⟩ ⟨0, (reserve_zero _).symm⟩ (.refl _) (.refl _)

/-- What returns to a world that differs from an earlier one by new variables only returns to that one. -/
theorem of_later {later : World} (bindings : ∃ size, later.left.bindings = world.left.bindings.reserve size)
    (bindings' : ∃ size, later.right.bindings = world.right.bindings.reserve size)
    (store : world.left.procedures.Extends later.left.procedures)
    (store' : world.right.procedures.Extends later.right.procedures) (returned : Returned comparison later left right) :
    Returned comparison world left right := by
  obtain ⟨size, same⟩ := bindings
  obtain ⟨size', same'⟩ := bindings'
  obtain ⟨more, last⟩ := returned.bindings
  obtain ⟨more', last'⟩ := returned.bindings'
  refine of_aligned coupled returned.coupled.aligned ⟨max size more, ?_⟩ ⟨max size' more', ?_⟩
    (store.trans returned.store) (store'.trans returned.store')
  · rw [last, same, reserve_reserve]
  · rw [last', same', reserve_reserve]

/-- Going back to the mark of a world returns to it. -/
theorem undo {later : World} (le : world.Later later)
    (returned : Returned comparison later left right) :
    Returned comparison world { left with bindings := left.bindings.undoTo world.left.bindings.mark }
      { right with bindings := right.bindings.undoTo world.right.bindings.mark } := by
  have grown := le.grown.trans returned.later.grown
  have grown' := le.grown'.trans returned.later.grown'
  have aligned := returned.coupled.aligned
  refine of_aligned coupled { aligned with } ⟨0, ?_⟩ ⟨0, ?_⟩
    (le.store.trans returned.store) (le.store'.trans returned.store')
  · rw [reserve_zero]
    exact grown.undoTo
  · rw [reserve_zero]
    exact grown'.undoTo

end Returned

/-- Steps that agree and lead to a later world. -/
abbrev Advances (comparison : Comparison) (world : World) {α β : Type} (holds : α → β → World → Prop) :
    EStateM.Result Stop Machine α → EStateM.Result Stop Machine β → Prop :=
  Concurs comparison fun value value' left right =>
    ∃ later, world.Later later ∧ Coupled comparison later ∧ later.left = left ∧ later.right = right ∧
      holds value value' later

theorem Advances.of_later {later : World} (le : world.Later later) {β : Type} {holds : α → β → World → Prop}
    {result : EStateM.Result Stop Machine α} {result' : EStateM.Result Stop Machine β}
    (advances : Advances comparison later holds result result') : Advances comparison world holds result result' :=
  advances.imp fun _ _ _ _ ⟨last, le', rest⟩ => ⟨last, le.trans le', rest⟩

/-- Searches that agree. -/
abbrev Matches (comparison : Comparison) (world : World) {σ : Type} (related : σ → σ → Prop) :
    EStateM.Result Stop Machine (Outcome σ) → EStateM.Result Stop Machine (Outcome σ) → Prop :=
  Concurs comparison fun outcome outcome' left right =>
    outcome'.1 = outcome.1.ahead comparison.lead ∧ related outcome.2 outcome'.2 ∧
      Returned comparison world left right

/-- Continuations that agree from a world on. -/
def Continues (comparison : Comparison) (world : World) {σ : Type} (related : σ → σ → Prop) (k k' : Continuation σ) :
    Prop :=
  ∀ later acc acc', world.Later later → Coupled comparison later → related acc acc' →
    Matches comparison later related (k acc later.left) (k' acc' later.right)

theorem Continues.mono {later : World} {σ : Type} {related : σ → σ → Prop} {k k' : Continuation σ}
    (continues : Continues comparison world related k k') (le : world.Later later) :
    Continues comparison later related k k' :=
  fun last acc acc' le' => continues last acc acc' (le.trans le')

/-- Solvers that agree on goals that ask for the same, with continuations that agree. -/
def Simulates (comparison : Comparison) (solver solver' : Solver) : Prop :=
  ∀ {σ : Type} {related : σ → σ → Prop} {world : World}, Coupled comparison world →
    ∀ {goal goal' : Term}, GoalsAlike world goal goal' → ∀ (depth barrier : Nat) {k k' : Continuation σ},
      Continues comparison world related k k' → ∀ {acc acc' : σ}, related acc acc' →
        Matches comparison world related (solver σ goal depth barrier k acc world.left)
          (solver' σ goal' depth (barrier + comparison.lead) k' acc' world.right)

/-! ## Steps of runs -/

section

variable {comparison : Comparison} {world : World} (coupled : Coupled comparison world) {α β σ τ : Type}
  {related : σ → σ → Prop} {holds : α → β → Machine → Machine → Prop}
include coupled

/-- Chains of variables that correspond to each other have ends that do. -/
theorem Coupled.images_walk {term term' : Term} (images : Images world.link term term') :
    Images world.link (world.left.bindings.walk term) (world.right.bindings.walk term') := by
  obtain ⟨covers, rfl⟩ := images
  exact coupled.mirrors.walk covers

/-- A search in a world that differs from an earlier one by new variables and procedures only. -/
theorem Coupled.matches_later {later : World} {result result' : EStateM.Result Stop Machine (Outcome σ)}
    (rest : Matches comparison later related result result')
    (bindings : ∃ size, later.left.bindings = world.left.bindings.reserve size)
    (bindings' : ∃ size, later.right.bindings = world.right.bindings.reserve size)
    (store : world.left.procedures.Extends later.left.procedures)
    (store' : world.right.procedures.Extends later.right.procedures) :
    Matches comparison world related result result' := by
  refine rest.imp ?_
  rintro outcome outcome' left right ⟨signal, values, returned⟩
  exact ⟨signal, values, .of_later coupled bindings bindings' store store' returned⟩

/-- Machines that differ from those of a world in output, warnings and barriers only. -/
theorem Coupled.matches_of_same {left right : Machine} (aligned : Aligned comparison left right)
    (bindings : left.bindings = world.left.bindings) (bindings' : right.bindings = world.right.bindings)
    (store : left.procedures = world.left.procedures) (store' : right.procedures = world.right.procedures)
    {action action' : Run (Outcome σ)}
    (rest : Coupled comparison ⟨world.link, left, right⟩ → world.Later ⟨world.link, left, right⟩ →
      Matches comparison ⟨world.link, left, right⟩ related (action left) (action' right)) :
    Matches comparison world related (action left) (action' right) := by
  have mirrors : Mirrors world.link left.bindings right.bindings := by
    rw [bindings, bindings']
    exact coupled.mirrors
  have extends' : world.left.procedures.Extends left.procedures := store ▸ .refl _
  have extends'' : world.right.procedures.Extends right.procedures := store' ▸ .refl _
  have later : world.Later ⟨world.link, left, right⟩ :=
    ⟨.refl _, bindings ▸ .refl _, bindings' ▸ .refl _, extends', extends''⟩
  exact coupled.matches_later (rest ⟨aligned, coupled.allowed, mirrors⟩ later) ⟨0, by rw [reserve_zero, bindings]⟩
    ⟨0, by rw [reserve_zero, bindings']⟩ extends' extends''

/-- New barriers are ahead as barriers were before. -/
theorem Coupled.concurs_newBarrier {next : Nat → Run α} {next' : Nat → Run β}
    (rest : ∀ later barrier, world.Later later → Coupled comparison later →
      later.left.bindings = world.left.bindings → later.right.bindings = world.right.bindings →
      Concurs comparison holds (next barrier later.left) (next' (barrier + comparison.lead) later.right)) :
    Concurs comparison holds ((Run.newBarrier >>= next) world.left) ((Run.newBarrier >>= next') world.right) := by
  rw [Run.newBarrier_bind, Run.newBarrier_bind]
  have ahead : world.right.barriers + 1 = world.left.barriers + 1 + comparison.lead := by
    rw [coupled.aligned.barriers]
    omega
  rw [ahead]
  exact rest ⟨world.link, { world.left with barriers := world.left.barriers + 1 },
      { world.right with barriers := world.left.barriers + 1 + comparison.lead }⟩ _
    ⟨.refl _, .refl _, .refl _, .refl _, .refl _⟩
    ⟨{ coupled.aligned with barriers := rfl }, coupled.allowed, coupled.mirrors⟩ rfl rfl

theorem Coupled.matches_newBarrier {next next' : Nat → Run (Outcome σ)}
    (rest : ∀ later barrier, world.Later later → Coupled comparison later →
      Matches comparison later related (next barrier later.left) (next' (barrier + comparison.lead) later.right)) :
    Matches comparison world related ((Run.newBarrier >>= next) world.left)
      ((Run.newBarrier >>= next') world.right) := by
  refine coupled.concurs_newBarrier fun later barrier le coupled' bindings bindings' => ?_
  exact coupled.matches_later (rest later barrier le coupled') ⟨0, by rw [reserve_zero, bindings]⟩
    ⟨0, by rw [reserve_zero, bindings']⟩ le.store le.store'

/-- The limit for calls is the same for both. -/
theorem Coupled.matches_checkDepth (depth : Nat) {next next' : Unit → Run (Outcome σ)}
    (rest : Matches comparison world related (next () world.left) (next' () world.right)) :
    Matches comparison world related ((Run.checkDepth depth >>= next) world.left)
      ((Run.checkDepth depth >>= next') world.right) := by
  have checked : Concurs comparison (fun _ _ left right => left = world.left ∧ right = world.right)
      (Run.checkDepth depth world.left) (Run.checkDepth depth world.right) := by
    rw [Run.checkDepth, Run.get_bind, Run.get_bind, coupled.aligned.settings, coupled.aligned.settings']
    cases comparison.settings.depthLimit with
    | none => exact .ok ⟨rfl, rfl⟩
    | some limit =>
      by_cases deep : limit ≤ depth
      · simp only [deep, if_true]
        exact .stop rfl coupled.aligned
      · simp only [deep, if_false]
        exact .ok ⟨rfl, rfl⟩
  refine checked.bind ?_
  rintro _ _ _ _ ⟨rfl, rfl⟩
  exact rest

variable {fuel fuel' : Nat} {lefts lefts' rights rights' : List Term} (fuels : comparison.Fuels fuel fuel')
  (images : List.Forall₂ (Images world.link) lefts lefts') (images' : List.Forall₂ (Images world.link) rights rights')

include fuels images images' in
/-- Terms that correspond to each other are unified in the same way. -/
theorem Coupled.concurs_unifyAll {next : Bool → Run α} {next' : Bool → Run β}
    (success : ∀ later, world.Later later → Coupled comparison later →
      Concurs comparison holds (next true later.left) (next' true later.right))
    (failure : Concurs comparison holds (next false world.left) (next' false world.right)) :
    Concurs comparison holds ((Run.unifyAll fuel lefts rights >>= next) world.left)
      ((Run.unifyAll fuel' lefts' rights' >>= next') world.right) := by
  have unified (fuel : Nat) := coupled.mirrors.parallel_unifyAll fuel (images.imp fun _ _ => coupled.images_walk)
    (images'.imp fun _ _ => coupled.images_walk)
  -- Both attempts with the smaller amount of fuel go the same way.
  have decided {smaller : Nat} (ended : (world.left.bindings.unifyAll smaller lefts rights).1 ≠ none)
      (same : world.left.bindings.unifyAll fuel lefts rights = world.left.bindings.unifyAll smaller lefts rights)
      (same' : world.right.bindings.unifyAll fuel' lefts' rights' =
        world.right.bindings.unifyAll smaller lefts' rights') :
      Concurs comparison holds ((Run.unifyAll fuel lefts rights >>= next) world.left)
        ((Run.unifyAll fuel' lefts' rights' >>= next') world.right) := by
    obtain ⟨parallel, unchanged⟩ := unified smaller
    rcases attempt : world.left.bindings.unifyAll smaller lefts rights with ⟨outcome, after⟩
    rcases attempt' : world.right.bindings.unifyAll smaller lefts' rights' with ⟨outcome', after'⟩
    rw [attempt, attempt'] at parallel unchanged
    rw [attempt] at ended
    obtain rfl : outcome' = outcome := parallel.outcome
    match outcome' with
    | none => exact absurd rfl ended
    | some true =>
      rw [Run.unifyAll_bind_some _ (same.trans attempt), Run.unifyAll_bind_some _ (same'.trans attempt')]
      exact success ⟨world.link, { world.left with bindings := after }, { world.right with bindings := after' }⟩
        ⟨.refl _, parallel.grown, parallel.grown', .refl _, .refl _⟩
        ⟨{ coupled.aligned with }, coupled.allowed, parallel.mirrors⟩
    | some false =>
      rw [Run.unifyAll_bind_some _ (same.trans attempt), Run.unifyAll_bind_some _ (same'.trans attempt')]
      obtain ⟨rfl, rfl⟩ := unchanged (by simp)
      exact failure
  cases excused : comparison.excused with
  | true =>
    have le : fuel ≤ fuel' := by simpa [Comparison.Fuels, Fuels, excused] using fuels
    by_cases ended : (world.left.bindings.unifyAll fuel lefts rights).1 = none
    · obtain ⟨after, stopped⟩ := Run.unifyAll_bind_none world.left ended next
      rw [stopped]
      exact .first excused
    · exact decided ended rfl (unifyAll_mono le (by rwa [(unified fuel).1.outcome]))
  | false =>
    have le : fuel' ≤ fuel := by simpa [Comparison.Fuels, Fuels, excused] using fuels
    by_cases ended : (world.left.bindings.unifyAll fuel' lefts rights).1 = none
    · obtain ⟨after, stopped⟩ := Run.unifyAll_bind_none world.right ((unified fuel').1.outcome.trans ended) next'
      rw [stopped]
      exact .second excused
    · exact decided ended (unifyAll_mono le ended) rfl

include fuels images images' in
theorem Coupled.advances_unifyAll :
    Advances comparison world (fun unified unified' _ => unified' = unified)
      (Run.unifyAll fuel lefts rights world.left) (Run.unifyAll fuel' lefts' rights' world.right) := by
  rw [← bind_pure (Run.unifyAll fuel lefts rights), ← bind_pure (Run.unifyAll fuel' lefts' rights')]
  refine coupled.concurs_unifyAll fuels images images' ?_ ?_
  · exact fun later le coupled' => .ok ⟨later, le, coupled', rfl, rfl, rfl⟩
  · exact .ok ⟨world, .refl _, coupled, rfl, rfl, rfl⟩

/-- A search that starts in a later world and goes back to the mark of this one. -/
theorem Coupled.concurs_undo {later : World} (le : world.Later later) {action action' : Run (Outcome σ)}
    (inside : Matches comparison later related (action later.left) (action' later.right))
    {next : Outcome σ → Run α} {next' : Outcome σ → Run β}
    (rest : ∀ outcome outcome' left right, outcome'.1 = outcome.1.ahead comparison.lead →
      related outcome.2 outcome'.2 → Returned comparison world left right →
      Concurs comparison holds (next outcome left) (next' outcome' right)) :
    Concurs comparison holds
      ((action >>= fun outcome => Run.undoTo world.left.bindings.mark >>= fun _ => next outcome) later.left)
      ((action' >>= fun outcome => Run.undoTo world.right.bindings.mark >>= fun _ => next' outcome) later.right) := by
  refine inside.bind ?_
  rintro outcome outcome' left right ⟨signal, values, returned⟩
  rw [Run.undoTo_bind, Run.undoTo_bind]
  exact rest outcome outcome' _ _ signal values (returned.undo coupled le)

end

/-! ## New variables -/

namespace Coupled

variable {comparison : Comparison} {world : World} (coupled : Coupled comparison world)

/-- The world with a number of new variables linked, on machines that have them. -/
def extended (count : Nat) (left right : Machine) : World where
  link := world.link.extend world.left.bindings.size world.right.bindings.size (· < count) id coupled.mirrors.inside
    fun _ _ less => less
  left := left
  right := right

variable {goal goal' : Term} {count : Nat}

theorem known_extended {left right : Machine} {id : Nat} :
    (coupled.extended count left right).link.known id ↔
      world.link.known id ∨ (world.left.bindings.size ≤ id ∧ id < world.left.bindings.size + count) := by
  show (if id < world.left.bindings.size then world.link.known id else id - world.left.bindings.size < count) ↔ _
  by_cases old : id < world.left.bindings.size
  · rw [if_pos old]
    constructor
    · exact .inl
    · rintro (known | new)
      · exact known
      · omega
  · rw [if_neg old]
    constructor
    · intro new
      exact .inr (by omega)
    · rintro (known | new)
      · exact absurd (coupled.mirrors.inside id known).1 old
      · omega

section

variable {count size size' : Nat} {left right : Machine} (aligned : Aligned comparison left right)
  (bindings : left.bindings = world.left.bindings.reserve size) (room : world.left.bindings.size + count ≤ size)
  (bindings' : right.bindings = world.right.bindings.reserve size') (room' : world.right.bindings.size + count ≤ size')
include bindings bindings'

include aligned room room' in
theorem coupled_extended : Coupled comparison (coupled.extended count left right) := by
  refine ⟨aligned, coupled.allowed, ?_⟩
  show Mirrors _ left.bindings right.bindings
  rw [bindings, bindings']
  have placed {one other : Nat} (_ : one < count) (_ : other < count) (less : one < other) : id one < id other := less
  refine coupled.mirrors.extend placed ?_ ?_
  · intro offset fresh
    omega
  · intro offset fresh
    show world.right.bindings.size + offset < size'
    omega

theorem later_extended (store : world.left.procedures.Extends left.procedures)
    (store' : world.right.procedures.Extends right.procedures) : world.Later (coupled.extended count left right) := by
  have placed {one other : Nat} (_ : one < count) (_ : other < count) (less : one < other) : id one < id other := less
  refine ⟨coupled.mirrors.le_extend placed, ?_, ?_, store, store'⟩
  · show Grown world.left.bindings left.bindings
    rw [bindings]
    exact .reserve _ size
  · show Grown world.right.bindings right.bindings
    rw [bindings']
    exact .reserve _ size'

end

/-- The world after the same number of variables was taken on both sides. -/
def taken (count : Nat) : World :=
  coupled.extended count
    { world.left with bindings := world.left.bindings.reserve (world.left.bindings.size + count) }
    { world.right with bindings := world.right.bindings.reserve (world.right.bindings.size + count) }

theorem coupled_taken (count : Nat) : Coupled comparison (coupled.taken count) :=
  coupled.coupled_extended { coupled.aligned with } rfl (Nat.le_refl _) rfl (Nat.le_refl _)

theorem later_taken (count : Nat) : world.Later (coupled.taken count) :=
  coupled.later_extended rfl rfl (.refl _) (.refl _)

/-- Copies with new variables correspond to each other. -/
theorem images_taken {term : Term} (named : term.Named Unreserved) (below : term.Below count) :
    Images (coupled.taken count).link (term.rename (world.left.bindings.size + ·))
      (term.rename (world.right.bindings.size + ·)) := by
  refine ⟨⟨?_, ?_⟩, ?_⟩
  · refine Term.forall_mem_rename fun id occurs => coupled.known_extended.mpr (.inr ?_)
    have := below id occurs
    omega
  · rw [(coupled.coupled_taken count).allowed]
    simpa using named
  · rw [Link.image, Term.rename_rename]
    apply Term.rename_congr
    intro id _
    show _ = shift _ _ _ _
    rw [shift_of_le (Nat.le_add_right _ _), Nat.add_sub_cancel_left]

include coupled in
/-- Goals that are counterparts correspond to each other if their variables are linked. -/
theorem goalsAlike (counterpart : Counterpart (Renamed Unreserved world.link.number)
      (SameLoop Unreserved world.left.procedures.entries world.right.procedures.entries) goal goal')
    (known : ∀ id ∈ goal.occurrences, world.link.known id) : GoalsAlike world goal goal' := by
  have plain {term term' : Term} (same : Renamed Unreserved world.link.number term term')
      (known : ∀ id ∈ term.occurrences, world.link.known id) : Images world.link term term' :=
    ⟨⟨known, coupled.allowed ▸ same.1⟩, same.2⟩
  induction counterpart with
  | plain same => exact .plain (plain same known)
  | modality walked _ ih => exact .modality walked (ih (by simpa using known))
  | @junction _ one _ other _ walked _ _ ihFirst ihSecond =>
    have known' : ∀ id, id ∈ one.occurrences ∨ id ∈ other.occurrences → world.link.known id := by
      simpa using known
    exact .junction walked (ihFirst fun id occurs => known' id (.inl occurs))
      (ihSecond fun id occurs => known' id (.inr occurs))
  | call pair same =>
    refine .call pair ?_
    simp only [Term.occurrences_build, List.mem_flatMap] at known
    induction same with
    | nil => exact .nil
    | cons first _ ih =>
      refine .cons (plain first fun id occurs => known id ⟨_, by simp, occurs⟩) (ih ?_)
      rintro id ⟨term, member, occurs⟩
      exact known id ⟨term, by simp [member], occurs⟩

/-- Copies of goals that are counterparts correspond to each other. -/
theorem goalsAlike_taken (below : goal.Below count) (counterpart : Counterpart (Renamed Unreserved id)
      (SameLoop Unreserved world.left.procedures.entries world.right.procedures.entries) goal goal') :
    GoalsAlike (coupled.taken count) (goal.rename (world.left.bindings.size + ·))
      (goal'.rename (world.right.bindings.size + ·)) := by
  apply (coupled.coupled_taken count).goalsAlike
  · apply counterpart.rename
    intro id _
    show _ = shift _ _ _ _
    rw [shift_of_le (Nat.le_add_right _ _), Nat.add_sub_cancel_left]
    rfl
  · refine Term.forall_mem_rename fun id occurs => coupled.known_extended.mpr (.inr ?_)
    have := below id occurs
    omega

end Coupled

end HornLoops
