import HornLoops.Proofs.Machine.Builtin
import HornLoops.Proofs.Machine.Coupling

/-!
# Predicates that are built in, side by side

On machines in corresponding states, a predicate that is built in asks for corresponding effects if its arguments
correspond to each other. It may look at the ends of chains of variables, replace bound variables and evaluate
expressions, and all of these come to corresponding results.
-/

namespace HornLoops

open Bindings

/-! ## Lists -/

namespace Link

variable {link : Link}

theorem listItems?_image (term : Term) : (link.image term).listItems? = term.listItems?.map (List.map link.image) := by
  fun_induction Term.listItems? term with
  | case1 head tail ih => simp [Term.listItems?, ih, Function.comp_def]
  | case2 name head tail other => simp [Term.listItems?, other]
  | case3 => rfl
  | case4 name other => simp [Term.listItems?, other]
  | case5 term notCons notNil =>
    cases term with
    | compound name first rest =>
      match rest with
      | [] => rfl
      | [second] => exact absurd rfl (notCons name first second)
      | second :: third :: rest => simp [Term.listItems?]
    | atom name => exact absurd rfl (notNil name)
    | _ => rfl

theorem Covers.listItems? {term : Term} {items : List Term} (covers : link.Covers term)
    (found : term.listItems? = some items) : ∀ item ∈ items, link.Covers item := by
  fun_induction Term.listItems? term generalizing items with
  | case1 head tail ih =>
    obtain ⟨others, found', rfl⟩ := Option.map_eq_some_iff.mp found
    obtain ⟨_, first, rest⟩ := covers_compound.mp covers
    exact List.forall_mem_cons.mpr ⟨first, ih (rest tail (by simp)) found'⟩
  | case3 =>
    obtain rfl := Option.some.inj found
    simp
  | _ => contradiction

@[simp] theorem image_list (items : List Term) : link.image (.list items) = .list (items.map link.image) := by
  induction items with
  | nil => rfl
  | cons item items ih =>
    show link.image (.compound "." item [.list items]) = .compound "." (link.image item) [.list (items.map link.image)]
    rw [image_compound, List.map_singleton, ih]

theorem covers_list (cons : link.allowed ".") (nil : link.allowed "[]") {items : List Term}
    (covers : ∀ item ∈ items, link.Covers item) : link.Covers (.list items) := by
  induction items with
  | nil => exact covers_atom.mpr nil
  | cons item items ih =>
    rw [List.forall_mem_cons] at covers
    refine covers_compound.mpr ⟨cons, covers.1, ?_⟩
    intro term member
    rw [List.mem_singleton.mp member]
    exact ih covers.2

end Link

/-- Whether a predicate is built in depends on its name and the number of its arguments only. -/
theorem Builtin.exists_ofCall? {same : Term → Term → Prop} {args args' : List Term} (each : List.Forall₂ same args args')
    {name : String} {action : Builtin} (found : ofCall? name args = some action) :
    ∃ action', ofCall? name args' = some action' := by
  unfold ofCall? at found
  split at found
  case h_29 => contradiction
  all_goals
    rcases each with _ | ⟨_, _ | ⟨_, _ | ⟨_, _ | _⟩⟩⟩
    exact ⟨_, rfl⟩

/-! ## Effects -/

section

variable {comparison : Comparison} {world : World}

/-- Results of predicates that are built in, which correspond to each other. -/
inductive EffectsAlike (coupled : Coupled comparison world) : Except Stop Effect → Except Stop Effect → Prop
  | refuse : EffectsAlike coupled (.ok .refuse) (.ok .refuse)
  | accept : EffectsAlike coupled (.ok .accept) (.ok .accept)
  | equate {taken : Nat} {lefts lefts' rights rights' : List Term}
      (images : List.Forall₂ (Images (coupled.taken taken).link) lefts lefts')
      (images' : List.Forall₂ (Images (coupled.taken taken).link) rights rights') :
      EffectsAlike coupled (.ok (.equate taken lefts rights)) (.ok (.equate taken lefts' rights'))
  | write (text text' : String) : EffectsAlike coupled (.ok (.write text)) (.ok (.write text'))
  | stop {stop stop' : Stop} (alike : stop.Alike stop') : EffectsAlike coupled (.error stop) (.error stop')
  | first {result : Except Stop Effect} (excused : comparison.excused = true) :
      EffectsAlike coupled (.error .exhausted) result
  | second {result : Except Stop Effect} (excused : comparison.excused = false) :
      EffectsAlike coupled result (.error .exhausted)

/-- Lists of terms that correspond to each other do so. -/
theorem Coupled.images_list (coupled : Coupled comparison world) {items items' : List Term}
    (images : List.Forall₂ (Images world.link) items items') : Images world.link (.list items) (.list items') := by
  obtain ⟨covers, rfl⟩ := Images.forall₂ images
  have cons : world.link.allowed "." := coupled.allowed ▸ ordinary_unreserved "." (by decide)
  have nil : world.link.allowed "[]" := coupled.allowed ▸ ordinary_unreserved "[]" (by decide)
  exact ⟨Link.covers_list cons nil covers, (Link.image_list items).symm⟩

namespace EffectsAlike

open Builtin

variable {coupled : Coupled comparison world}

theorem test (holds : Bool) : EffectsAlike coupled (.ok (Builtin.test holds)) (.ok (Builtin.test holds)) := by
  cases holds with
  | true => exact .accept
  | false => exact .refuse

theorem fault {error error' : RunError} (alike : error.kind = error'.kind) :
    EffectsAlike coupled (Builtin.fault error) (Builtin.fault error') := .stop alike

/-- Terms are unified that correspond to each other. -/
theorem unify {lefts lefts' rights rights' : List Term} (images : List.Forall₂ (Images world.link) lefts lefts')
    (images' : List.Forall₂ (Images world.link) rights rights') :
    EffectsAlike coupled (.ok (.equate 0 lefts rights)) (.ok (.equate 0 lefts' rights')) :=
  .equate ((coupled.later_taken 0).images images) ((coupled.later_taken 0).images images')

theorem equal {left left' right right' : Term} (images : Images world.link left left')
    (images' : Images world.link right right') :
    EffectsAlike coupled (.ok (Builtin.equal left right)) (.ok (Builtin.equal left' right')) :=
  unify (.cons images .nil) (.cons images' .nil)

theorem evaluated {expression expression' : Term} (images : Images world.link expression expression')
    {next next' : Int64 → Except Stop Effect} (rest : ∀ value, EffectsAlike coupled (next value) (next' value)) :
    EffectsAlike coupled (Builtin.evaluated world.left.bindings expression >>= next)
      (Builtin.evaluated world.right.bindings expression' >>= next') := by
  obtain ⟨covers, rfl⟩ := images
  rw [Builtin.evaluated, Builtin.evaluated]
  rw [coupled.mirrors.eval covers]
  cases world.left.bindings.eval expression with
  | ok value => exact rest value
  | error error => exact .stop rfl

theorem resolved {term term' : Term} (images : Images world.link term term')
    {next next' : Term → Except Stop Effect}
    (rest : ∀ value value', Images world.link value value' → EffectsAlike coupled (next value) (next' value')) :
    EffectsAlike coupled (Builtin.resolved world.left.bindings term >>= next)
      (Builtin.resolved world.right.bindings term' >>= next') := by
  obtain ⟨covers, rfl⟩ := images
  rw [Builtin.resolved, Builtin.resolved, coupled.mirrors.ends covers]
  by_cases ended : world.left.bindings.ends term = true
  · rw [if_pos ended, if_pos ended]
    exact rest _ _ (coupled.mirrors.resolve covers ended)
  · rw [if_neg ended, if_neg ended]
    exact .stop trivial

/-- Terms with new variables correspond to each other. -/
theorem newVars (coupled : Coupled comparison world) (count : Nat) :
    List.Forall₂ (Images (coupled.taken count).link) (Builtin.newVars world.left.bindings count)
      (Builtin.newVars world.right.bindings count) := by
  rw [Builtin.newVars, Builtin.newVars, List.forall₂_map_left_iff, List.forall₂_map_right_iff, List.forall₂_same]
  intro offset inside
  exact coupled.images_taken (Term.named_var offset) (by simpa [Term.Below] using inside)

/-- Terms that are put together from lists that correspond to each other do so. -/
theorem ofItems {whole whole' : Term} {items : List Term} (covers : ∀ item ∈ items, world.link.Covers item)
    {next next' : Term → Except Stop Effect}
    (rest : ∀ value value', Images world.link value value' → EffectsAlike coupled (next value) (next' value')) :
    EffectsAlike coupled (Builtin.ofItems whole items >>= next)
      (Builtin.ofItems whole' (items.map world.link.image) >>= next') := by
  match items with
  | [] => exact .stop rfl
  | [single] => exact rest _ _ ⟨covers single (by simp), rfl⟩
  | .atom name :: item :: others =>
    refine rest _ _ ⟨Link.covers_build.mpr ⟨?_, ?_⟩, (Link.image_build _ _).symm⟩
    · exact Link.covers_atom.mp (covers _ (by simp))
    · exact fun item member => covers item (by simp [member])
  | .var id :: item :: others => exact .stop rfl
  | .int value :: item :: others => exact .stop rfl
  | .compound name argument args :: item :: others =>
    rw [List.map_cons, Link.image_compound]
    exact .stop rfl

end EffectsAlike

/-! ## Predicates -/

/-- Predicates that are built in and ask for corresponding effects. -/
def ActionsAlike (coupled : Coupled comparison world) (action action' : Builtin) : Prop :=
  ∀ {fuel fuel'}, comparison.Fuels fuel fuel' →
    EffectsAlike coupled (action fuel world.left.bindings) (action' fuel' world.right.bindings)

namespace ActionsAlike

open EffectsAlike

variable {coupled : Coupled comparison world} {one one' two two' three three' : Term}
  (images : Images world.link one one') (images' : Images world.link two two')
  (images'' : Images world.link three three')
include images

theorem inspect {holds : Term → Bool} (same : ∀ term, holds (world.link.image term) = holds term) :
    ActionsAlike coupled (Builtin.inspect holds one) (Builtin.inspect holds one') := by
  intro _ _ _
  rw [Builtin.inspect, Builtin.inspect, (coupled.images_walk images).2, same]
  exact test _

theorem isList : ActionsAlike coupled (Builtin.isList one) (Builtin.isList one') := by
  refine fun _ => resolved images fun whole whole' same => ?_
  rw [same.2, Link.listItems?_image, Option.isSome_map]
  exact test _

theorem output (after : String) : ActionsAlike coupled (Builtin.output one after) (Builtin.output one' after) :=
  fun _ => resolved images fun _ _ _ => .write _ _

include images'

theorem compare (holds : Int → Int → Bool) :
    ActionsAlike coupled (Builtin.compare holds one two) (Builtin.compare holds one' two') :=
  fun _ => evaluated images fun _ => evaluated images' fun _ => test _

theorem compareTerms (holds : Bool → Bool) :
    ActionsAlike coupled (Builtin.compareTerms holds one two) (Builtin.compareTerms holds one' two') := by
  refine fun _ => resolved images fun value value' same => resolved images' fun other other' same' => ?_
  obtain ⟨covers, rfl⟩ := same
  obtain ⟨covers', rfl⟩ := same'
  have iff : world.link.image value = world.link.image other ↔ value = other :=
    ⟨Link.eq_of_image_eq covers covers', fun equal => by rw [equal]⟩
  simp only [iff]
  exact test _

theorem differ : ActionsAlike coupled (Builtin.differ one two) (Builtin.differ one' two') := by
  intro fuel fuel' fuels
  obtain ⟨covers, rfl⟩ := images
  obtain ⟨covers', rfl⟩ := images'
  have parallel (fuel : Nat) : (world.right.bindings.unify fuel (world.link.image one) (world.link.image two)).1 =
      (world.left.bindings.unify fuel one two).1 :=
    (coupled.mirrors.parallel_unify fuel
      ⟨.of_covers coupled.mirrors covers, .of_covers coupled.mirrors covers'⟩).outcome
  unfold Builtin.differ
  cases excused : comparison.excused with
  | true =>
    have le : fuel ≤ fuel' := by simpa [Comparison.Fuels, Fuels, excused] using fuels
    cases ended : (world.left.bindings.unify fuel one two).1 with
    | none => exact .first excused
    | some unified =>
      have ended' := (parallel fuel).trans ended
      rw [unify_mono le (by simp [ended']), ended']
      exact test _
  | false =>
    have le : fuel' ≤ fuel := by simpa [Comparison.Fuels, Fuels, excused] using fuels
    cases ended : (world.left.bindings.unify fuel' one two).1 with
    | none =>
      rw [parallel fuel', ended]
      exact .second excused
    | some unified =>
      rw [parallel fuel', unify_mono le (by simp [ended]), ended]
      exact test _

theorem evaluate : ActionsAlike coupled
    (fun _ bindings => do return Builtin.equal one (.int (← Builtin.evaluated bindings two)))
    (fun _ bindings => do return Builtin.equal one' (.int (← Builtin.evaluated bindings two'))) :=
  fun _ => evaluated images' fun _ => equal images ⟨Link.covers_int _, rfl⟩

theorem atomLength : ActionsAlike coupled (Builtin.atomLength one two) (Builtin.atomLength one' two') := by
  intro _ _ _
  unfold Builtin.atomLength
  rw [(coupled.images_walk images).2]
  cases world.left.bindings.walk one with
  | atom name => exact equal images' ⟨Link.covers_int _, rfl⟩
  | var id => exact fault rfl
  | int value => exact fault rfl
  | compound name first rest =>
    rw [Link.image_compound]
    exact fault rfl

include images'' in
theorem argument : ActionsAlike coupled (Builtin.argument one two three) (Builtin.argument one' two' three') := by
  intro _ _ _
  unfold Builtin.argument
  rw [(coupled.images_walk images).2]
  cases world.left.bindings.walk one with
  | int position =>
    obtain ⟨covers, same⟩ := coupled.images_walk images'
    rw [same]
    cases walked : world.left.bindings.walk two with
    | compound name first rest =>
      simp only [Link.image_int, Link.image_compound]
      by_cases low : position.toInt ≤ 0
      · simp only [low, if_true]
        exact .refuse
      · simp only [low, if_false]
        rw [← List.map_cons, List.getElem?_map]
        cases found : (first :: rest)[position.toInt.toNat - 1]? with
        | none => exact .refuse
        | some item =>
          have member : item ∈ (Term.compound name first rest).args := List.mem_of_getElem? found
          exact equal images'' ⟨Link.Covers.args (walked ▸ covers) item member, rfl⟩
    | _ => exact fault rfl
  | var id => exact fault rfl
  | atom name => exact fault rfl
  | compound name first rest =>
    rw [Link.image_compound]
    exact fault rfl

include images'' in
theorem nameAndArity :
    ActionsAlike coupled (Builtin.nameAndArity one two three) (Builtin.nameAndArity one' two' three') := by
  intro _ _ _
  unfold Builtin.nameAndArity
  obtain ⟨covers, same⟩ := coupled.images_walk images
  rw [same]
  cases walked : world.left.bindings.walk one with
  | var id =>
    rw [(coupled.images_walk images'').2]
    cases world.left.bindings.walk three with
    | int count =>
      obtain ⟨covers', same'⟩ := coupled.images_walk images'
      rw [same']
      simp only [Link.image_var, Link.image_int]
      by_cases none : count = 0
      · simp only [none, if_true]
        exact equal images ⟨covers', rfl⟩
      · simp only [none, if_false]
        cases walked' : world.left.bindings.walk two with
        | atom functor =>
          rw [walked', Link.covers_atom] at covers'
          refine .equate (.cons (images.mono (coupled.later_taken _).link) .nil) (.cons ?_ .nil)
          obtain ⟨new, rename⟩ := Images.forall₂ (newVars coupled count.toInt.toNat)
          rw [rename]
          exact ⟨Link.covers_build.mpr ⟨covers', new⟩, (Link.image_build _ _).symm⟩
        | compound functor first rest =>
          rw [Link.image_compound]
          exact fault rfl
        | _ => exact fault rfl
    | compound functor first rest =>
      rw [Link.image_compound]
      exact fault rfl
    | _ => exact fault rfl
  | compound functor first rest =>
    simp only [Link.image_compound, List.length_map]
    rw [walked, Link.covers_compound] at covers
    exact unify (.cons images' (.cons images'' .nil))
      (.cons ⟨Link.covers_atom.mpr covers.1, rfl⟩ (.cons ⟨Link.covers_int _, rfl⟩ .nil))
  | int value =>
    exact unify (.cons images' (.cons images'' .nil))
      (.cons ⟨Link.covers_int _, rfl⟩ (.cons ⟨Link.covers_int _, rfl⟩ .nil))
  | atom functor =>
    exact unify (.cons images' (.cons images'' .nil))
      (.cons ⟨walked ▸ covers, rfl⟩ (.cons ⟨Link.covers_int _, rfl⟩ .nil))

theorem nameAndArguments :
    ActionsAlike coupled (Builtin.nameAndArguments one two) (Builtin.nameAndArguments one' two') := by
  intro _ _ _
  unfold Builtin.nameAndArguments
  obtain ⟨covers, same⟩ := coupled.images_walk images
  rw [same]
  cases walked : world.left.bindings.walk one with
  | var id =>
    refine resolved images' fun whole whole' same' => ?_
    obtain ⟨covers', rfl⟩ := same'
    rw [Link.listItems?_image]
    cases found : whole.listItems? with
    | none => exact fault rfl
    | some items => exact ofItems (covers'.listItems? found) fun _ _ value => equal images value
  | compound name first rest =>
    rw [Link.image_compound]
    rw [walked, Link.covers_compound] at covers
    refine equal images' (coupled.images_list (.cons ⟨Link.covers_atom.mpr covers.1, rfl⟩ (Images.of_forall ?_)))
    exact List.forall_mem_cons.mpr covers.2
  | int value => exact equal images' (coupled.images_list (.cons ⟨Link.covers_int _, rfl⟩ .nil))
  | atom name => exact equal images' (coupled.images_list (.cons ⟨walked ▸ covers, rfl⟩ .nil))

theorem listLength : ActionsAlike coupled (Builtin.listLength one two) (Builtin.listLength one' two') := by
  intro _ _ _
  refine resolved images fun whole whole' same => ?_
  rw [same.2, Link.listItems?_image]
  cases whole.listItems? with
  | some items =>
    rw [Option.map_some]
    simp only [List.length_map]
    exact equal images' ⟨Link.covers_int _, rfl⟩
  | none =>
    rw [(coupled.images_walk images').2]
    cases world.left.bindings.walk two with
    | int count =>
      simp only [Option.map_none, Link.image_int]
      by_cases negative : count.toInt < 0
      · simp only [negative, if_true]
        exact .refuse
      · simp only [negative, if_false]
        refine .equate (.cons (images.mono (coupled.later_taken _).link) .nil) (.cons ?_ .nil)
        exact (coupled.coupled_taken _).images_list (newVars coupled count.toInt.toNat)
    | var id => exact fault rfl
    | atom name => exact fault rfl
    | compound name first rest =>
      rw [Link.image_compound]
      exact fault rfl

theorem successor : ActionsAlike coupled (Builtin.successor one two) (Builtin.successor one' two') := by
  intro _ _ _
  unfold Builtin.successor
  rw [(coupled.images_walk images).2, (coupled.images_walk images').2]
  cases world.left.bindings.walk one with
  | int value =>
    simp only [Link.image_int]
    by_cases negative : value.toInt < 0
    · simp only [negative, if_true]
      exact fault rfl
    · simp only [negative, if_false]
      cases word? (value.toInt + 1) with
      | some next => exact equal images' ⟨Link.covers_int _, rfl⟩
      | none => exact fault rfl
  | var id =>
    cases world.left.bindings.walk two with
    | int value =>
      simp only [Link.image_int, Link.image_var]
      by_cases none : value.toInt = 0
      · simp only [none, if_true]
        exact .refuse
      · simp only [none, if_false]
        by_cases negative : value.toInt < 0
        · simp only [negative, if_true]
          exact fault rfl
        · simp only [negative, if_false]
          exact equal images ⟨Link.covers_int _, rfl⟩
    | compound name first rest =>
      rw [Link.image_compound]
      exact fault rfl
    | _ => exact fault rfl
  | atom name => exact fault rfl
  | compound name first rest =>
    rw [Link.image_compound]
    exact fault rfl

omit images images'

/-- Predicates that are built in are told by their name and the number of their arguments, and do the same with
arguments that correspond to each other. -/
theorem ofCall? (coupled : Coupled comparison world) (name : String) {args args' : List Term}
    (images : List.Forall₂ (Images world.link) args args') :
    Option.Rel (ActionsAlike coupled) (Builtin.ofCall? name args) (Builtin.ofCall? name args') := by
  have int (term : Term) : (world.link.image term).int?.isSome = term.int?.isSome := by cases term <;> simp [Term.int?]
  have atom (term : Term) : (world.link.image term).atom?.isSome = term.atom?.isSome := by
    cases term <;> simp [Term.atom?]
  cases found : Builtin.ofCall? name args with
  | none =>
    have missing : Builtin.ofCall? name args' = none := by
      rw [Option.eq_none_iff_forall_ne_some]
      intro action' found'
      obtain ⟨action, built⟩ := Builtin.exists_ofCall? images.flip found'
      simp [built] at found
    rw [missing]
    exact .none
  | some action =>
    unfold Builtin.ofCall? at found
    split at found
    case h_29 => contradiction
    all_goals
      obtain rfl := Option.some.inj found
      rcases images with _ | ⟨one, _ | ⟨two, _ | ⟨three, _ | _⟩⟩⟩
    case h_1 => exact .some fun _ => equal one two
    case h_2 => exact .some (differ one two)
    case h_3 => exact .some (compareTerms one two id)
    case h_4 => exact .some (compareTerms one two not)
    case h_5 => exact .some (evaluate one two)
    case h_6 | h_7 | h_8 | h_9 | h_10 | h_11 => exact .some (compare one two _)
    case h_12 => exact .some (inspect one Link.isVar_image)
    case h_13 => exact .some (inspect one fun _ => by rw [Link.isVar_image])
    case h_14 => exact .some (inspect one int)
    case h_15 => exact .some (inspect one atom)
    case h_16 => exact .some (inspect one fun _ => by rw [int, atom])
    case h_17 => exact .some (inspect one fun _ => by rw [Link.args_image, List.isEmpty_map])
    case h_18 => exact .some (isList one)
    case h_19 => exact .some (nameAndArity one two three)
    case h_20 => exact .some (argument one two three)
    case h_21 => exact .some (nameAndArguments one two)
    case h_22 => exact .some (listLength one two)
    case h_23 => exact .some (atomLength one two)
    case h_24 => exact .some (successor one two)
    case h_25 | h_26 | h_27 => exact .some (output one _)
    case h_28 => exact .some fun _ => .write _ _

end ActionsAlike

end

end HornLoops
