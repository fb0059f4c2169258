import HornLoops.Term.VarSet

/-!
# Variants and templates

Two terms are variants if they differ only in the numbers of their variables. The normal form of a term numbers
its variables from zero in the order of their first occurrence, so variants have equal normal forms. A
template is a sequence of terms in joint normal form, which stands for all its copies with new variables.
-/

namespace HornLoops

/-- A term with its variables numbered from zero, and their number. -/
structure NormalForm where
  /-- The term. -/
  term : Term
  /-- How many variables it has. -/
  width : Nat
deriving DecidableEq, Repr

namespace Term

/-- The normal form of a term. -/
def normalize (term : Term) : NormalForm :=
  let names := term.vars
  ⟨term.rename names.idxOf, names.length⟩

end Term

/-- Terms with their variables numbered jointly from zero, and their number. -/
structure Template where
  /-- The terms. -/
  terms : List Term
  /-- How many variables they have. -/
  width : Nat
deriving DecidableEq, Repr

namespace Template

/-- The template of some terms. -/
def ofTerms (terms : List Term) : Template :=
  let names := Term.varsAll terms
  ⟨terms.map (Term.rename names.idxOf), names.length⟩

/-- A copy of the terms, with variables that are numbered from the next free number on. -/
def instantiate (template : Template) (next : Nat) : List Term :=
  template.terms.map (Term.rename (next + ·))

end Template

end HornLoops
