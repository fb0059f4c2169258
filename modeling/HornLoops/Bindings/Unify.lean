import HornLoops.Bindings.Basic

/-!
# Unification

Two terms are unified by binding variables, pair of subterms after pair of subterms from left to right. Of two
unbound variables the younger is bound to the older, so that going back to a mark never leaves a binding to
a variable that is gone. There is no test for circles, which is why a bound on the number of pairs is
handed in: without one, terms that contain themselves could be compared forever.

An attempt answers `none` if the bound was too small, and otherwise whether the terms were unified. Unless
they were, the bindings are as they were before.
-/

namespace HornLoops.Bindings

/-- Whether unification succeeded, if that was found out, and the bindings after it. -/
abbrev Attempt := Option Bool × Bindings

/-- Unifies pairs of terms, in order. Bindings made before a failure remain. -/
def unifyPairs : Nat → List (Term × Term) → Bindings → Attempt
  | _, [], bindings => (some true, bindings)
  | 0, _ :: _, bindings => (none, bindings)
  | fuel + 1, (left, right) :: rest, bindings =>
    match bindings.walk left, bindings.walk right with
    | .var left, .var right =>
      if left = right then unifyPairs fuel rest bindings
      else if right < left then unifyPairs fuel rest (bindings.bind left (.var right))
      else unifyPairs fuel rest (bindings.bind right (.var left))
    | .var id, value => unifyPairs fuel rest (bindings.bind id value)
    | value, .var id => unifyPairs fuel rest (bindings.bind id value)
    | .int left, .int right =>
      if left = right then unifyPairs fuel rest bindings else (some false, bindings)
    | .atom left, .atom right =>
      if left = right then unifyPairs fuel rest bindings else (some false, bindings)
    | .compound left first args, .compound right first' args' =>
      if left = right ∧ args.length = args'.length then
        unifyPairs fuel ((first, first') :: args.zip args' ++ rest) bindings
      else (some false, bindings)
    | _, _ => (some false, bindings)

/-- Takes back the bindings of an attempt that did not succeed. -/
def takingBack (bindings : Bindings) (attempt : Bindings → Attempt) : Attempt :=
  let mark := bindings.mark
  match attempt bindings with
  | (some true, after) => (some true, after)
  | (outcome, after) => (outcome, after.unbindTo mark)

/-- Unifies two terms. -/
def unify (fuel : Nat) (left right : Term) (bindings : Bindings) : Attempt :=
  bindings.takingBack (unifyPairs fuel [(left, right)])

/-- Unifies terms with terms one after the other. Bindings of the pairs before a failure remain. -/
def unifyEach (fuel : Nat) : List Term → List Term → Bindings → Attempt
  | left :: lefts, right :: rights, bindings =>
    match bindings.unify fuel left right with
    | (some true, after) => unifyEach fuel lefts rights after
    | other => other
  | _, _, bindings => (some true, bindings)

/-- Unifies two sequences of terms, which succeeds only if they are equally long. -/
def unifyAll (fuel : Nat) (lefts rights : List Term) (bindings : Bindings) : Attempt :=
  if lefts.length = rights.length then bindings.takingBack (unifyEach fuel lefts rights)
  else (some false, bindings)

end HornLoops.Bindings
