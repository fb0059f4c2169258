import HornLoops.Machine.Goal
import HornLoops.Proofs.Bindings.MostGeneral
import HornLoops.Proofs.Loop.Sharing

/-!
# Predicates that are built in, by kind

The predicates that are built in are of a few kinds, and what holds for all of them is shown for each kind. None
of them has a name that could be given to a procedure, and none of them does anything else with more fuel.
-/

namespace HornLoops

/-- What has the items of a list is the list. -/
theorem Term.eq_list_of_listItems? {term : Term} {items : List Term} (found : term.listItems? = some items) :
    term = .list items := by
  fun_induction Term.listItems? term generalizing items with
  | case1 head tail ih =>
    obtain ⟨others, found', rfl⟩ := Option.map_eq_some_iff.mp found
    rw [ih found']
    rfl
  | case3 =>
    obtain rfl := Option.some.inj found
    rfl
  | _ => contradiction

namespace Builtin

/-- The kinds of predicates that are built in. -/
inductive Kind : List Term → Builtin → Prop
  | equal (left right : Term) : Kind [left, right] fun _ _ => .ok (equal left right)
  | differ (left right : Term) : Kind [left, right] (differ left right)
  | compareTerms (holds : Bool → Bool) (left right : Term) :
      Kind [left, right] (compareTerms holds left right)
  | evaluate (target expression : Term) : Kind [target, expression] fun _ bindings => do
      return Builtin.equal target (.int (← evaluated bindings expression))
  | compare (holds : Int → Int → Bool) (left right : Term) : Kind [left, right] (compare holds left right)
  | inspect (holds : Bool → Bool → Bool → Bool) (term : Term) : Kind [term]
      (inspect (fun term => holds term.isVar term.int?.isSome term.atom?.isSome) term)
  | isList (term : Term) : Kind [term] (isList term)
  | nameAndArity (term name arity : Term) : Kind [term, name, arity] (nameAndArity term name arity)
  | argument (index term value : Term) : Kind [index, term, value] (argument index term value)
  | nameAndArguments (term list : Term) : Kind [term, list] (nameAndArguments term list)
  | listLength (list length : Term) : Kind [list, length] (listLength list length)
  | atomLength (atom length : Term) : Kind [atom, length] (atomLength atom length)
  | successor (before after : Term) : Kind [before, after] (successor before after)
  | output (term : Term) (after : String) : Kind [term] (output term after)
  | newline : Kind [] fun _ _ => .ok (.write "\n")

/-- The names of predicates that are built in. -/
def names : List String :=
  ["=", "\\=", "==", "\\==", "is", "=:=", "=\\=", "<", ">", "=<", ">=", "var", "nonvar", "integer", "atom",
    "atomic", "compound", "is_list", "functor", "arg", "=..", "length", "atom_length", "succ", "write",
    "print", "writeln", "nl"]

/-- A predicate that is built in has one of the names and is of one of the kinds. -/
theorem kind_of_ofCall? {name : String} {args : List Term} {action : Builtin}
    (found : ofCall? name args = some action) : name ∈ names ∧ Kind args action := by
  have compound (term : Term) :
      (!term.args.isEmpty) = !(term.isVar || term.int?.isSome || term.atom?.isSome) := by
    cases term <;> rfl
  unfold ofCall? at found
  split at found
  case h_17 term =>
    rw [Option.some.injEq] at found
    subst found
    refine ⟨by simp [names], ?_⟩
    simp only [compound]
    exact .inspect (fun isVar isInt isAtom => !(isVar || isInt || isAtom)) term
  case h_29 => contradiction
  all_goals
    rw [Option.some.injEq] at found
    subst found
    refine ⟨by simp [names], ?_⟩
  case h_12 term => exact .inspect (fun isVar _ _ => isVar) term
  case h_13 term => exact .inspect (fun isVar _ _ => !isVar) term
  case h_14 term => exact .inspect (fun _ isInt _ => isInt) term
  case h_15 term => exact .inspect (fun _ _ isAtom => isAtom) term
  case h_16 term => exact .inspect (fun _ isInt isAtom => isAtom || isInt) term
  all_goals constructor

/-- A predicate that is built in does the same with more fuel, if it comes to an end. -/
def Stable (action : Builtin) : Prop :=
  ∀ small large bindings, small ≤ large →
    action small bindings = .error .exhausted ∨ action large bindings = action small bindings

/-- All predicates that are built in are stable. Only one kind unifies terms to find out what to do. -/
theorem Kind.stable {args : List Term} {action : Builtin} (kind : Kind args action) : action.Stable := by
  intro small large bindings le
  cases kind with
  | differ left right =>
    unfold Builtin.differ
    by_cases finished : (bindings.unify small left right).1 = none
    · left
      rw [finished]
    · right
      rw [Bindings.unify_mono le finished]
  | _ => exact .inr rfl

end Builtin

namespace Goal

/-- What a goal asks for is stable if what is built in is. -/
def Stable : Goal → Prop
  | .builtin action => action.Stable
  | _ => True

theorem stable_ofCall (name : String) (args : List Term) : (ofCall name args).Stable := by
  unfold ofCall
  split
  case h_13 =>
    split
    · exact (Builtin.kind_of_ofCall? ‹_›).2.stable
    · trivial
  all_goals trivial

theorem stable_of_ofTerm {term : Term} {goal : Goal} (read : ofTerm term = .ok goal) : goal.Stable := by
  cases term with
  | var id => simp [ofTerm] at read
  | int value => simp [ofTerm] at read
  | atom name =>
    rw [ofTerm, Except.ok.injEq] at read
    exact read ▸ stable_ofCall name []
  | compound name first rest =>
    rw [ofTerm, Except.ok.injEq] at read
    exact read ▸ stable_ofCall name (first :: rest)

/-- A name that was given out to a procedure asks for that procedure. -/
theorem ofCall_nameOf (number : Nat) (args : List Term) :
    ofCall (Procedures.nameOf number) args = .predicate (Procedures.nameOf number) args := by
  have unlike : ∀ name ∈ Builtin.names, Procedures.nameOf number ≠ name := by
    have others : ∀ name ∈ Builtin.names, name.toList.take 4 ≠ ['d', 'o', '_', '_'] := by decide
    exact fun name member => Procedures.nameOf_ne (others name member) number
  have notBuiltin : Builtin.ofCall? (Procedures.nameOf number) args = none := by
    rw [Option.eq_none_iff_forall_ne_some]
    intro action found
    exact unlike _ (Builtin.kind_of_ofCall? found).1 rfl
  unfold ofCall
  split
  case h_13 => rw [notBuiltin]
  all_goals exact absurd ‹_› (Procedures.nameOf_ne (by decide) number)

end Goal

end HornLoops
