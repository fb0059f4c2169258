import HornLoops.Proofs.Machine.Effects

/-!
# Requests side by side

What a goal asks for is told from its name and its arguments. Goals that correspond to each other ask for the same with
arguments that do, except that calls of procedures for the same loop may be calls of different procedures.
-/

namespace HornLoops

open Bindings

section

variable {comparison : Comparison} {world : World}

/-- What goals ask for, if they ask for the same. -/
inductive AsksAlike (coupled : Coupled comparison world) : Goal → Goal → Prop
  | succeed : AsksAlike coupled .succeed .succeed
  | fail : AsksAlike coupled .fail .fail
  | cut : AsksAlike coupled .cut .cut
  | both {left left' right right' : Term} (first : GoalsAlike world left left')
      (second : GoalsAlike world right right') : AsksAlike coupled (.both left right) (.both left' right')
  | either {left left' right right' : Term} (first : GoalsAlike world left left')
      (second : GoalsAlike world right right') : AsksAlike coupled (.either left right) (.either left' right')
  | ifThen {left left' right right' : Term} (first : GoalsAlike world left left')
      (second : GoalsAlike world right right') : AsksAlike coupled (.ifThen left right) (.ifThen left' right')
  | unless {inner inner' : Term} (inside : GoalsAlike world inner inner') :
      AsksAlike coupled (.unless inner) (.unless inner')
  | confined {inner inner' : Term} (inside : GoalsAlike world inner inner') :
      AsksAlike coupled (.call inner []) (.call inner' [])
  | call {target target' : Term} {extra extra' : List Term} (images : Images world.link target target')
      (others : List.Forall₂ (Images world.link) extra extra') :
      AsksAlike coupled (.call target extra) (.call target' extra')
  | loop {specs specs' body body' : Term} (images : Images world.link specs specs')
      (inside : Images world.link body body') : AsksAlike coupled (.loop specs body) (.loop specs' body')
  | collect {template template' inner inner' result result' : Term} (images : Images world.link template template')
      (inside : Images world.link inner inner') (images' : Images world.link result result') :
      AsksAlike coupled (.collect template inner result) (.collect template' inner' result')
  | builtin {action action' : Builtin}
      (effects : ∀ {fuel fuel'}, comparison.Fuels fuel fuel' →
        EffectsAlike coupled (action fuel world.left.bindings) (action' fuel' world.right.bindings)) :
      AsksAlike coupled (.builtin action) (.builtin action')
  | predicate {name : String} {args args' : List Term} (named : Unreserved name)
      (images : List.Forall₂ (Images world.link) args args') :
      AsksAlike coupled (.predicate name args) (.predicate name args')
  | procedure {entry entry' : ProcedureEntry} {args args' : List Term}
      (pair : SameLoop Unreserved world.left.procedures.entries world.right.procedures.entries entry entry')
      (images : List.Forall₂ (Images world.link) args args') :
      AsksAlike coupled (.predicate entry.procedure.name args) (.predicate entry'.procedure.name args')

namespace AsksAlike

variable {coupled : Coupled comparison world}

theorem ofCall {name : String} (named : Unreserved name) {args args' : List Term}
    (images : List.Forall₂ (Images world.link) args args') :
    AsksAlike coupled (Goal.ofCall name args) (Goal.ofCall name args') := by
  unfold Goal.ofCall
  split
  case h_10 =>
    obtain _ | ⟨one, rest⟩ := images
    exact .call one rest
  case h_13 =>
    have other : Goal.ofCall name args' =
        (Builtin.ofCall? name args').elim (.predicate name args') Goal.builtin := by
      unfold Goal.ofCall
      split
      case h_13 => cases Builtin.ofCall? name args' <;> rfl
      all_goals
        rcases images with _ | ⟨_, _ | ⟨_, _ | ⟨_, _ | _⟩⟩⟩ <;> simp_all
    show AsksAlike coupled _ (Goal.ofCall name args')
    rw [other]
    have alike := ActionsAlike.ofCall? coupled name images
    revert alike
    cases Builtin.ofCall? name args <;> cases Builtin.ofCall? name args'
    · exact fun _ => .predicate named images
    · nofun
    · nofun
    · rintro ⟨effects⟩
      exact .builtin effects
  all_goals rcases images with _ | ⟨one, _ | ⟨two, _ | ⟨three, _ | _⟩⟩⟩
  case h_1 => exact .succeed
  case h_2 | h_3 => exact .fail
  case h_4 => exact .cut
  case h_5 => exact .both (.plain one) (.plain two)
  case h_6 => exact .either (.plain one) (.plain two)
  case h_7 => exact .ifThen (.plain one) (.plain two)
  case h_8 | h_9 => exact .unless (.plain one)
  case h_11 => exact .loop one two
  case h_12 => exact .collect one two three

end AsksAlike

variable (coupled : Coupled comparison world)
include coupled

variable {entry : ProcedureEntry} {goal goal' : Term}

/-- A procedure has a name that was given out. -/
theorem Coupled.exists_name (member : entry ∈ world.left.procedures.entries) :
    ∃ number, entry.procedure.name = Procedures.nameOf number :=
  coupled.aligned.store.sound.generated entry member

theorem Coupled.exists_name' (member : entry ∈ world.right.procedures.entries) :
    ∃ number, entry.procedure.name = Procedures.nameOf number :=
  coupled.aligned.store'.sound.generated entry member

/-- Goals at the ends of chains of variables ask for the same. -/
theorem Coupled.goalsAlike_walk (alike : GoalsAlike world goal goal') :
    GoalsAlike world (world.left.bindings.walk goal) (world.right.bindings.walk goal') := by
  cases alike with
  | plain images => exact .plain (coupled.images_walk images)
  | modality walked inside =>
    rw [walk_of_isVar_eq_false rfl, walk_of_isVar_eq_false rfl]
    exact .modality walked inside
  | junction walked first second =>
    rw [walk_of_isVar_eq_false rfl, walk_of_isVar_eq_false rfl]
    exact .junction walked first second
  | @call entry entry' pair args args' images =>
    rw [walk_of_isVar_eq_false (Term.isVar_build _ args), walk_of_isVar_eq_false (Term.isVar_build _ args')]
    exact .call pair images

/-- Goals that ask for the same are conditionals alike. -/
theorem Coupled.goalsAlike_binary? (alike : GoalsAlike world goal goal') :
    Option.Rel (fun parts parts' => GoalsAlike world parts.1 parts'.1 ∧
        GoalsAlike world parts.2 parts'.2) (goal.binary? "->") (goal'.binary? "->") := by
  cases alike with
  | plain images =>
    obtain ⟨covers, rfl⟩ := images
    rcases goal with id | value | name | ⟨name, first, _ | ⟨second, _ | ⟨third, rest⟩⟩⟩
    · exact .none
    · exact .none
    · exact .none
    · exact .none
    · rw [Link.image_compound, List.map_singleton, Term.binary?, Term.binary?]
      by_cases conditional : name = "->"
      · rw [if_pos conditional, if_pos conditional]
        obtain ⟨_, one, two⟩ := Link.covers_compound.mp covers
        exact .some ⟨.plain ⟨one, rfl⟩, .plain ⟨two second (by simp), rfl⟩⟩
      · rw [if_neg conditional, if_neg conditional]
        exact .none
    · rw [Link.image_compound]
      exact .none
  | modality => exact .none
  | @junction name left left' right right' _ first second =>
    rw [Term.binary, Term.binary, Term.binary?, Term.binary?]
    by_cases conditional : name = "->"
    · rw [if_pos conditional, if_pos conditional]
      exact .some ⟨first, second⟩
    · rw [if_neg conditional, if_neg conditional]
      exact .none
  | @call entry entry' pair args args' images =>
    have none (number : Nat) (args : List Term) : (Term.build (Procedures.nameOf number) args).binary? "->" = none := by
      have differ : Procedures.nameOf number ≠ "->" := Procedures.nameOf_ne (by decide) number
      rcases args with _ | ⟨_, _ | ⟨_, _ | ⟨_, _⟩⟩⟩
      · rfl
      · rfl
      · simp [Term.build, Term.binary?, differ]
      · rfl
    obtain ⟨number, name⟩ := coupled.exists_name pair.registered
    obtain ⟨number', name'⟩ := coupled.exists_name' pair.registered'
    rw [name, name', none, none]
    exact .none

/-- Goals that ask for the same are both callable or fail with errors of the same kind. -/
theorem Coupled.asksAlike_ofTerm (alike : GoalsAlike world goal goal') :
    (∃ asked asked', Goal.ofTerm goal = .ok asked ∧ Goal.ofTerm goal' = .ok asked' ∧ AsksAlike coupled asked asked') ∨
      ∃ error error', Goal.ofTerm goal = .error error ∧ Goal.ofTerm goal' = .error error' ∧
        error.kind = error'.kind := by
  cases alike with
  | plain images =>
    obtain ⟨covers, rfl⟩ := images
    cases goal with
    | var id => exact .inr ⟨_, _, rfl, rfl, rfl⟩
    | int value => exact .inr ⟨_, _, rfl, rfl, rfl⟩
    | atom name =>
      have named := coupled.allowed ▸ Link.covers_atom.mp covers
      exact .inl ⟨_, _, rfl, rfl, .ofCall named .nil⟩
    | compound name first rest =>
      obtain ⟨named, one, others⟩ := Link.covers_compound.mp covers
      refine .inl ⟨_, _, rfl, by rw [Link.image_compound]; rfl, .ofCall (coupled.allowed ▸ named) ?_⟩
      exact Images.of_forall (List.forall_mem_cons.mpr ⟨one, others⟩)
  | @modality name inner inner' walked inside =>
    rcases (by simpa [isModality] using walked : name = "\\+" ∨ name = "call") with rfl | rfl
    · exact .inl ⟨_, _, rfl, rfl, .unless inside⟩
    · exact .inl ⟨_, _, rfl, rfl, .confined inside⟩
  | @junction name left left' right right' walked first second =>
    rcases (by simpa [isJunction, or_assoc] using walked : name = "," ∨ name = ";" ∨ name = "->") with rfl | rfl | rfl
    · exact .inl ⟨_, _, rfl, rfl, .both first second⟩
    · exact .inl ⟨_, _, rfl, rfl, .either first second⟩
    · exact .inl ⟨_, _, rfl, rfl, .ifThen first second⟩
  | @call entry entry' pair args args' images =>
    have asks (number : Nat) (args : List Term) : Goal.ofTerm (.build (Procedures.nameOf number) args) =
        .ok (.predicate (Procedures.nameOf number) args) := by
      cases args with
      | nil => exact congrArg Except.ok (Goal.ofCall_nameOf number [])
      | cons first rest => exact congrArg Except.ok (Goal.ofCall_nameOf number (first :: rest))
    obtain ⟨number, name⟩ := coupled.exists_name pair.registered
    obtain ⟨number', name'⟩ := coupled.exists_name' pair.registered'
    refine .inl ⟨_, _, ?_, ?_, .procedure pair images⟩
    · rw [name]
      exact asks number args
    · rw [name']
      exact asks number' args'

end

end HornLoops
