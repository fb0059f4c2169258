import HornLoops.Term.Text

/-!
# Answers

An answer to a query holds the values of the variables that are named in it.
-/

namespace HornLoops

/-- The named variables of a query with their values. -/
structure Answer where
  /-- Names and values, in the order of the query. -/
  values : List (String × Term)
deriving DecidableEq, Repr

namespace Answer

/-- The value of a variable. -/
def get? (answer : Answer) (name : String) : Option Term := answer.values.lookup name

/-- Whether the query has no named variables. -/
def isEmpty (answer : Answer) : Bool := answer.values.isEmpty

/-- The text of an answer, which leaves out the variables without a value. -/
def text (answer : Answer) : String :=
  let shown := answer.values.filter fun (_, value) => !value.isVar
  if shown.isEmpty then "true"
  else ", ".intercalate (shown.map fun (name, value) => name ++ " = " ++ value.text)

end Answer

end HornLoops
