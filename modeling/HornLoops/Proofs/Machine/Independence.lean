import HornLoops.Proofs.Machine.Consulting

/-!
# Answers do not depend on the store

Procedures that are already in the store change which calls a goal is compiled into and which variables are taken on the
way. They do not change what is answered: machines with the same settings on which the same texts were consulted give the
same answers to a query, up to the names of unbound variables, or they stop with errors of the same kind. A query that
is repeated finds all its procedures in the store.
-/

namespace HornLoops

open Bindings Machine

/-! ## Answers side by side -/

/-- Answers that give the same values to the same names, up to a renaming of variables. -/
def Answer.Variant (left right : Answer) : Prop :=
  ∃ number, InjectiveOn number (left.values.flatMap fun entry => entry.2.occurrences) ∧
    right.values = left.values.map fun entry => (entry.1, entry.2.rename number)

theorem Answer.Variant.symm {left right : Answer} (variant : left.Variant right) : right.Variant left := by
  obtain ⟨number, injective, same⟩ := variant
  obtain ⟨back, inverse⟩ := injective.exists_inverse
  have occurrences : (right.values.flatMap fun entry => entry.2.occurrences) =
      (left.values.flatMap fun entry => entry.2.occurrences).map number := by
    simp [same, List.flatMap_map, List.map_flatMap]
  refine ⟨back, ?_, ?_⟩
  · rw [occurrences]
    intro one member other member' equal
    obtain ⟨id, inside, rfl⟩ := List.mem_map.mp member
    obtain ⟨id', inside', rfl⟩ := List.mem_map.mp member'
    rw [inverse id inside, inverse id' inside'] at equal
    rw [equal]
  · have undone (entry : String × Term) (member : entry ∈ left.values) :
        (entry.1, (entry.2.rename number).rename back) = entry := by
      rw [Term.rename_inverse fun id occurs => inverse id (List.mem_flatMap.mpr ⟨entry, member, occurs⟩)]
    rw [same, List.map_map]
    exact ((List.map_congr_left undone).trans (List.map_id _)).symm

section

variable {comparison : Comparison} {world : World} (coupled : Coupled comparison world) {names : List (String × Nat)}
  (known : ∀ entry ∈ names, world.link.known entry.2 ∧ world.link.number entry.2 = entry.2)
include coupled known

/-- The variables of a query come to an end on both machines or on none. -/
theorem Coupled.all_ends :
    (names.map fun entry => Term.var entry.2).all world.right.bindings.ends =
      (names.map fun entry => Term.var entry.2).all world.left.bindings.ends := by
  rw [Bool.eq_iff_iff, List.all_map, List.all_map, List.all_eq_true, List.all_eq_true]
  refine forall₂_congr fun entry member => ?_
  obtain ⟨linked, same⟩ := known entry member
  have ends := coupled.mirrors.ends (Link.covers_var.mpr linked)
  rw [Link.image_var, same] at ends
  simp only [Function.comp_apply, ends]

/-- The variables of a query have values that correspond to each other. -/
theorem Coupled.answerFor_variant
    (ended : (names.map fun entry => Term.var entry.2).all world.left.bindings.ends = true) :
    (answerFor names world.left.bindings).Variant (answerFor names world.right.bindings) := by
  have values (entry : String × Nat) (member : entry ∈ names) :
      world.link.Covers (world.left.bindings.resolve (.var entry.2)) ∧
        world.right.bindings.resolve (.var entry.2) =
          (world.left.bindings.resolve (.var entry.2)).rename world.link.number := by
    obtain ⟨linked, same⟩ := known entry member
    have ends : world.left.bindings.ends (.var entry.2) = true := by
      rw [List.all_map, List.all_eq_true] at ended
      exact ended entry member
    have resolved := coupled.mirrors.resolve (Link.covers_var.mpr linked) ends
    rwa [Link.image_var, same] at resolved
  refine ⟨world.link.number, Link.injectiveOn_of_known ?_, ?_⟩
  · intro id occurs
    simp only [answerFor, List.flatMap_map, List.mem_flatMap] at occurs
    obtain ⟨entry, member, occurs⟩ := occurs
    exact (values entry member).1.vars id occurs
  · simp only [answerFor, List.map_map]
    exact List.map_congr_left fun entry member => by simp [(values entry member).2]

end

variable {comparison : Comparison} {count : Nat} {number : Nat → Nat} {left right : Machine}

/-- Answers are noted alike. -/
theorem Prepared.continues_noteAnswer {goal goal' : Term} (prepared : Prepared count number left right goal goal')
    {names : List (String × Nat)} (below : ∀ entry ∈ names, entry.2 < count) (limit : Option Nat) :
    Continues comparison ⟨prepared.link, left, right⟩ (List.Forall₂ Answer.Variant) (noteAnswer names limit)
      (noteAnswer names limit) := by
  intro later found found' le coupled variants
  have known (entry : String × Nat) (member : entry ∈ names) :
      later.link.known entry.2 ∧ later.link.number entry.2 = entry.2 := by
    have read : prepared.link.known entry.2 := .inl (below entry member)
    exact ⟨le.link.known _ read, (le.link.number _ read).trans (prepared.old _ (below entry member))⟩
  unfold noteAnswer
  rw [Run.checkEnds_bind, Run.checkEnds_bind, coupled.all_ends known]
  by_cases ended : (names.map fun entry => Term.var entry.2).all later.left.bindings.ends = true
  · rw [if_pos ended, if_pos ended, Run.get_bind, Run.get_bind]
    have variants' := variants.cons (coupled.answerFor_variant known ended)
    have enough' : enough limit (answerFor names later.right.bindings :: found') =
        enough limit (answerFor names later.left.bindings :: found) := by
      simp only [enough, variants'.length_eq]
    refine .ok ⟨?_, variants', .refl coupled⟩
    dsimp only
    rw [enough']
    split <;> rfl
  · rw [if_neg ended, if_neg ended]
    exact .stop trivial coupled.aligned

/-! ## Queries side by side -/

/-- The goal of a query, if it can be read. -/
def goalOf? (text : String) : Option Term :=
  match readTerm text 0 with
  | .ok read _ => some read.term
  | .error _ _ => none

/-- A query that mentions no names of procedures. -/
def PlainQuery (text : String) : Prop := ∀ goal, goalOf? text = some goal → goal.Named Unreserved

/-- A program that mentions no names of procedures. -/
def PlainProgram (text : String) : Prop := ∀ clause ∈ clausesOf text, clause.Named Unreserved

/-- Machines without variables that correspond to each other answer a query alike. -/
theorem Aligned.answers (aligned : Aligned comparison left right) (empty : left.bindings = .empty)
    (empty' : right.bindings = .empty) {fuel fuel' : Nat} (fuels : comparison.Fuels fuel fuel') {text : String}
    (plain : PlainQuery text) (limit : Option Nat) :
    EndsAlike comparison.excused
      (fun left right => Aligned comparison left right ∧ left.bindings = .empty ∧ right.bindings = .empty)
      (fun found found' left right => List.Forall₂ Answer.Variant found found' ∧
        Aligned comparison left right ∧ left.bindings = .empty ∧ right.bindings = .empty)
      (Machine.answers fuel text limit left) (Machine.answers fuel' text limit right) := by
  have blind (left right : Machine) (bindings bindings' : Bindings) (aligned : Aligned comparison left right) :
      Aligned comparison { left with bindings := bindings } { right with bindings := bindings' } := { aligned with }
  refine EndsAlike.restoring blind empty empty' ?_
  refine EndsAlike.reading blind empty empty' aligned fun read count ended => ?_
  have below := readTerm_below ended
  have named : read.term.Named Unreserved := plain _ (by rw [goalOf?, ended])
  have shown (entry : String × Nat) (member : entry ∈ shownNames read) : entry.2 < count :=
    below.2 entry (List.mem_of_mem_filter member)
  have poised : Poised comparison count { left with bindings := Bindings.empty.reserve count }
      { right with bindings := Bindings.empty.reserve count } :=
    ⟨{ aligned with }, vacant_reserve_empty count, vacant_reserve_empty count⟩
  refine (poised.prepareWith named below.1 []).bind ?_
  rintro ⟨goal, findings⟩ ⟨goal', findings'⟩ left' right' ⟨poised', number, prepared⟩
  dsimp only at prepared ⊢
  rw [Run.report_bind, Run.report_bind]
  generalize reached : ({ left' with
    warnings := left'.warnings ++ findings.map (LoopWarning.ofDiagnostic read.names) } : Machine) = left₁
  generalize reached' : ({ right' with
    warnings := right'.warnings ++ findings'.map (LoopWarning.ofDiagnostic read.names) } : Machine) = right₁
  have reported : Poised comparison count left₁ right₁ := by
    subst reached reached'
    exact { poised' with aligned := { poised'.aligned with } }
  have prepared' : Prepared count number left₁ right₁ goal goal' := by
    subst reached reached'
    exact { prepared with }
  rw [← bind_assoc, ← bind_assoc]
  refine (reported.solve prepared' fuels (prepared'.continues_noteAnswer shown limit) .nil).bind ?_
  rintro ⟨_, found⟩ ⟨_, found'⟩ left₂ right₂ ⟨variants, poised₂⟩
  exact .ok ⟨List.forall₂_reverse_iff.mpr variants, poised₂.aligned⟩

/-- A machine that is at rest later on: its settings and its program are the same, and its store has grown. -/
structure Machine.Resumed (before after : Machine) : Prop where
  /-- The settings are the same. -/
  settings : after.settings = before.settings
  /-- The program is the same. -/
  program : after.program = before.program
  /-- The store has grown. -/
  store : before.procedures.Evolved after.procedures
  /-- There are no variables. -/
  bindings : after.bindings = .empty

/-- Two machines after the same query. -/
structure Answered (left right left' right' : Machine) : Prop where
  /-- The first machine is at rest again. -/
  resumed : left.Resumed left'
  /-- So is the second one. -/
  resumed' : right.Resumed right'
  /-- The stores have grown side by side. -/
  stores : Concordant left.procedures.entries right.procedures.entries left'.procedures.entries right'.procedures.entries

theorem Answered.symm {left' right' : Machine} (answered : Answered left right left' right') :
    Answered right left right' left' := ⟨answered.resumed', answered.resumed, answered.stores.symm⟩

namespace Idle

variable {start start' : Procedures} (idle : Idle start start' left right) {fuel fuel' : Nat} {text : String}
  {excused : Bool}
include idle

/-- Machines at rest that are alike answer a query alike. -/
theorem answers (fuels : Fuels excused fuel fuel') (plain : PlainQuery text) (limit : Option Nat) :
    EndsAlike excused (Answered left right)
      (fun found found' left' right' => List.Forall₂ Answer.Variant found found' ∧ Answered left right left' right')
      (Machine.answers fuel text limit left) (Machine.answers fuel' text limit right) := by
  -- One of the machines is ahead, and the machines may change places.
  wlog le : left.barriers ≤ right.barriers generalizing start start' left right excused fuel fuel'
  · have turned := (this idle.symm fuels.flip (Nat.le_of_not_le le)).flip
    rw [Bool.not_not] at turned
    refine (turned.imp ?_).impStopped fun _ _ => Answered.symm
    exact fun _ _ _ _ ⟨variants, answered⟩ =>
      ⟨(variants.imp fun _ _ => Answer.Variant.symm).flip, answered.symm⟩
  let comparison := idle.alike.comparison (right.barriers - left.barriers) excused
  have aligned : Aligned comparison left right := idle.alike.aligned (Nat.add_sub_of_le le).symm
  have ended {left' right' : Machine} (rested : Aligned comparison left' right' ∧
      left'.bindings = .empty ∧ right'.bindings = .empty) : Answered left right left' right' := by
    obtain ⟨aligned', empty, empty'⟩ := rested
    exact ⟨⟨aligned'.settings, aligned'.program, aligned'.store, empty⟩,
      ⟨aligned'.settings'.trans idle.alike.settings.symm, aligned'.program', aligned'.store', empty'⟩,
      aligned'.concordant⟩
  refine ((aligned.answers idle.bindings idle.bindings' fuels plain limit).imp ?_).impStopped fun _ _ => ended
  exact fun _ _ _ _ ⟨variants, rested⟩ => ⟨variants, ended rested⟩

/-- What two machines have been through so far does not matter any more. -/
theorem rebase : Idle left.procedures right.procedures left right :=
  { idle with
    alike := { idle.alike with
      store := idle.alike.store.refl
      store' := idle.alike.store'.refl
      concordant := .refl _ _ } }

/-- A machine that is like another one is like itself. -/
theorem refl_right : Idle right.procedures right.procedures right right where
  alike := ⟨rfl, idle.alike.store'.refl, idle.alike.store'.refl, .refl _ _,
    forall₂_refl_right idle.alike.clauses fun _ _ => Clause.Alike.refl_right⟩
  bindings := idle.bindings'
  bindings' := idle.bindings'

/-- One of two machines may go on without the other one. -/
theorem resume {right' : Machine} (resumed : right.Resumed right') :
    Idle left.procedures right'.procedures left right' where
  alike := by
    refine ⟨resumed.settings.trans idle.alike.settings, idle.alike.store.refl, resumed.store.refl, .refl _ _, ?_⟩
    rw [resumed.program]
    exact idle.alike.clauses.imp fun _ _ pair => pair.mono (List.Subset.refl _) resumed.store.grown.subset
  bindings := idle.bindings
  bindings' := resumed.bindings

/-- Queries that finish leave both machines at rest, and their stores have grown side by side. -/
theorem answered (plain : PlainQuery text) {limit : Option Nat}
    (finished : Finished (Machine.answers fuel text limit left))
    (finished' : Finished (Machine.answers fuel' text limit right)) :
    Answered left right (after (Machine.answers fuel text limit left)) (after (Machine.answers fuel' text limit right)) :=
  (idle.answers (.of_decide fuel fuel') plain limit).after finished finished' fun _ _ _ _ => And.right

end Idle

/-! ## Machines with a history -/

/-- A machine at rest with some settings, on which some texts were consulted, in order. Its store had procedures from the
start, or it got procedures in between: from queries, or from other machines with which it shares the store. -/
inductive Machine.Loaded (settings : Settings) : List String → Machine → Prop
  | start {procedures : Procedures} (reachable : procedures.Reachable) :
      Loaded settings [] (Machine.start settings procedures)
  | consult {texts : List String} {machine : Machine} (loaded : Loaded settings texts machine) (fuel : Nat)
      (text : String) (finished : Finished (Machine.consult fuel text machine)) :
      Loaded settings (texts ++ [text]) (after (Machine.consult fuel text machine))
  | answers {texts : List String} {machine : Machine} (loaded : Loaded settings texts machine) (fuel : Nat)
      {text : String} (plain : PlainQuery text) (limit : Option Nat)
      (finished : Finished (Machine.answers fuel text limit machine)) :
      Loaded settings texts (after (Machine.answers fuel text limit machine))
  | resume {texts : List String} {machine later : Machine} (loaded : Loaded settings texts machine)
      (settled : later.settings = machine.settings) (program : later.program = machine.program)
      (bindings : later.bindings = machine.bindings) (grown : machine.procedures.Extends later.procedures)
      (reachable : later.procedures.Reachable) : Loaded settings texts later

theorem Machine.Resumed.of_reachable {machine later : Machine} (settled : later.settings = machine.settings)
    (program : later.program = machine.program) (bindings : later.bindings = .empty)
    (grown : machine.procedures.Extends later.procedures) (reachable : later.procedures.Reachable) :
    machine.Resumed later :=
  ⟨settled, program, { reachable.evolved with grown := grown }, bindings⟩

namespace Machine.Loaded

variable {settings : Settings} {texts : List String}

/-- What holds of two machines after the last text was consulted still holds when the second one has gone on. -/
theorem idle_of_consulted {machine machine' : Machine} (loaded' : Loaded settings texts machine')
    (begun : ∀ procedures, texts = [] → procedures.Reachable →
      Idle machine.procedures (Machine.start settings procedures).procedures machine (Machine.start settings procedures))
    (consulted : ∀ earlier last fuel machine', texts = earlier ++ [last] → Loaded settings earlier machine' →
      Finished (Machine.consult fuel last machine') →
      Idle machine.procedures (after (Machine.consult fuel last machine')).procedures machine
        (after (Machine.consult fuel last machine'))) :
    Idle machine.procedures machine'.procedures machine machine' := by
  induction loaded' with
  | start reachable => exact begun _ rfl reachable
  | consult loaded fuel text finished => exact consulted _ text fuel _ rfl loaded finished
  | answers _ fuel plain limit finished ih =>
    have idle := ih begun consulted
    exact idle.resume (idle.refl_right.answered plain finished finished).resumed
  | resume _ settled program bindings grown reachable ih =>
    have idle := ih begun consulted
    exact idle.resume (.of_reachable settled program (bindings.trans idle.bindings') grown reachable)

/-- Machines with the same settings on which the same texts were consulted are alike. -/
theorem idle {machine machine' : Machine} (loaded : Loaded settings texts machine)
    (loaded' : Loaded settings texts machine') (plain : ∀ text ∈ texts, PlainProgram text) :
    Idle machine.procedures machine'.procedures machine machine' := by
  induction loaded generalizing machine' with
  | start reachable =>
    refine loaded'.idle_of_consulted (fun _ _ reachable' => (idle_start settings reachable reachable').rebase) ?_
    intro earlier last fuel machine' same
    simp at same
  | @consult texts machine loaded fuel text finished ih =>
    refine loaded'.idle_of_consulted (fun _ same => by simp at same) ?_
    intro earlier last fuel' machine' same loaded₁ finished'
    obtain ⟨rfl, rfl⟩ : texts = earlier ∧ text = last := by simpa using List.append_inj' same rfl
    obtain ⟨plainEarlier, plainLast⟩ := List.forall_mem_append.mp plain
    have idle := ih loaded₁ plainEarlier
    have named : PlainProgram text := plainLast text (by simp)
    exact ((idle.consult (.of_decide fuel fuel') named).after finished finished' fun _ _ _ _ => And.right).rebase
  | answers _ fuel plainQuery limit finished ih =>
    have idle := (ih loaded' plain).symm
    exact (idle.resume (idle.refl_right.answered plainQuery finished finished).resumed).symm
  | resume _ settled program bindings grown reachable ih =>
    have idle := (ih loaded' plain).symm
    exact (idle.resume (.of_reachable settled program (bindings.trans idle.bindings') grown reachable)).symm

end Machine.Loaded

/-! ## Independence -/

/-- Results of a query that are the same: answers that are variants of each other, or errors of the same kind. -/
inductive AnswersAlike : EStateM.Result Stop Machine (List Answer) → EStateM.Result Stop Machine (List Answer) → Prop
  | found {found found' : List Answer} {left right : Machine} (variants : List.Forall₂ Answer.Variant found found') :
      AnswersAlike (.ok found left) (.ok found' right)
  | failed {error error' : RunError} {left right : Machine} (same : error.kind = error'.kind) :
      AnswersAlike (.error (.error error) left) (.error (.error error') right)

theorem AnswersAlike.of_agrees {stopped : Machine → Machine → Prop} {result result' : EStateM.Result Stop Machine (List Answer)}
    (agrees : EndsAlike true stopped
      (fun found found' left right => List.Forall₂ Answer.Variant found found' ∧ stopped left right) result result')
    (finished : Finished result) : AnswersAlike result result' := by
  cases agrees with
  | ok result => exact .found result.1
  | @stop stop stop' _ _ alike _ =>
    cases stop <;> cases stop'
    · exact .failed alike
    · exact absurd alike id
    · exact absurd finished id
    · exact absurd finished id
  | first _ => exact absurd finished id
  | second lacks => contradiction

/-- A store that has grown by loops that it had already has not grown at all. -/
theorem Procedures.Evolved.entries_eq {before after : Procedures} (evolved : before.Evolved after)
    (recorded : ∀ entry ∈ after.entries, Recorded before.entries entry.signature) : after.entries = before.entries := by
  obtain ⟨added, same⟩ := evolved.grown.isPrefix
  have distinct := evolved.ordered.signatures
  rw [← same, List.map_append, List.nodup_append] at distinct
  cases added with
  | nil => rw [← same, List.append_nil]
  | cons entry added =>
    obtain ⟨other, inside, equal⟩ := recorded entry (by simp [← same])
    exact absurd equal (distinct.2.2 _ (List.mem_map_of_mem inside) _ (by simp))

namespace Doubling

/-- A program with a loop. -/
def program : String := "double(Xs, Ys) :- ( foreach(X, Xs), foreach(Y, Ys) do Y is X + X )."

/-- A query with a loop that is compiled when it is reached. -/
def query : String := "double([1, 2], L), G = (foreach(Z, L), fromto(0, A, B, S) do B is A + Z), call(G)"

/-- A machine that starts without procedures. -/
def fresh : Machine := after (consult 60 program (Machine.start {} {}))

/-- The procedures of a loop that is neither in the program nor in the library. -/
def procedures : Procedures :=
  Compiler.storeAfter (Compiler.expandGoal (.binary "do" (.binary "foreach" (.var 0) (.var 1)) .truth) []) ⟨2, {}⟩

/-- A machine that starts with these and was asked something else before. -/
def filled : Machine :=
  after (answers 60 "double([3], L), sum_list([1], S)" none (after (consult 60 program (Machine.start {} procedures))))

set_option maxRecDepth 20000 in
/-- All runs come to an end. -/
theorem finished_runs :
    Finished (consult 60 program (Machine.start {} {})) ∧
      Finished (consult 60 program (Machine.start {} procedures)) ∧
      Finished (answers 60 "double([3], L), sum_list([1], S)" none
        (after (consult 60 program (Machine.start {} procedures)))) ∧
      Finished (answers 60 query none (after (consult 60 program (Machine.start {} {})))) ∧
      Finished (answers 60 query none (after (answers 60 query none (after (consult 60 program (Machine.start {} {})))))) := by
  rw [Machine.start, Machine.start, consult_eq 0 libraryText, show libraryText = String.ofList _ from rfl,
    String.toList_ofList]
  decide +kernel

theorem plain_program : PlainProgram program := by
  have ordinary : ∀ clause ∈ clausesOf program, ∀ name ∈ clause.names, name.toList.take 4 ≠ ['d', 'o', '_', '_'] := by
    decide +kernel
  exact fun clause member name mentioned => ordinary_unreserved name (ordinary clause member name mentioned)

theorem plainQuery_of_ordinary {text : String}
    (ordinary : ∀ goal ∈ (goalOf? text).toList, ∀ name ∈ goal.names, name.toList.take 4 ≠ ['d', 'o', '_', '_']) :
    PlainQuery text :=
  fun goal read name mentioned => ordinary_unreserved name (ordinary goal (by simp [read]) name mentioned)

theorem loaded_fresh : Loaded {} [program] fresh := .consult (.start .empty) 60 program finished_runs.1

theorem loaded_filled : Loaded {} [program] filled := by
  have reachable : procedures.Reachable := .goal .empty 2 _ [] (by decide)
  exact .answers (.consult (.start reachable) 60 program finished_runs.2.1) 60 (plainQuery_of_ordinary (by decide +kernel))
    none finished_runs.2.2.1

end Doubling

end HornLoops
