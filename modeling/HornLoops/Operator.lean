/-!
# Operators

The operators of the notation, with the priorities that decide how operands nest. A smaller priority binds
tighter. The reader and the writer share these two tables, which is what makes one undo the other.
-/

namespace HornLoops

/-- An operator between two operands. -/
structure BinaryOp where
  /-- The priority of the whole. -/
  priority : Nat
  /-- The largest priority of the left operand. -/
  left : Nat
  /-- The largest priority of the right operand. -/
  right : Nat
deriving DecidableEq, Repr

/-- An operator before its operand. -/
structure UnaryOp where
  /-- The priority of the whole. -/
  priority : Nat
  /-- The largest priority of the operand. -/
  operand : Nat
deriving DecidableEq, Repr

/-- The priority up to which any term may stand. -/
def maxPriority : Nat := 1200

/-- The priority up to which an argument or a list item may stand without parentheses. -/
def argPriority : Nat := 999

namespace BinaryOp

/-- An operator whose operands both bind tighter than itself. -/
def strict (priority : Nat) : BinaryOp := ⟨priority, priority - 1, priority - 1⟩

/-- An operator that nests to the right. -/
def toRight (priority : Nat) : BinaryOp := ⟨priority, priority - 1, priority⟩

/-- An operator that nests to the left. -/
def toLeft (priority : Nat) : BinaryOp := ⟨priority, priority, priority - 1⟩

end BinaryOp

namespace UnaryOp

/-- An operator whose operand binds tighter than itself. -/
def strict (priority : Nat) : UnaryOp := ⟨priority, priority - 1⟩

/-- An operator that may be repeated. -/
def repeatable (priority : Nat) : UnaryOp := ⟨priority, priority⟩

end UnaryOp

/-- The operators between two operands. -/
def binaryOps : List (String × BinaryOp) :=
  [(":-", .strict 1200), ("-->", .strict 1200),
    (";", .toRight 1100), ("do", .strict 1100),
    ("->", .toRight 1050), (",", .toRight 1000),
    ("=", .strict 700), ("\\=", .strict 700), ("==", .strict 700), ("\\==", .strict 700),
    ("is", .strict 700), ("=:=", .strict 700), ("=\\=", .strict 700), ("<", .strict 700),
    (">", .strict 700), ("=<", .strict 700), (">=", .strict 700), ("=..", .strict 700),
    ("+", .toLeft 500), ("-", .toLeft 500),
    ("*", .toLeft 400), ("/", .toLeft 400), ("//", .toLeft 400), ("mod", .toLeft 400),
    ("rem", .toLeft 400),
    ("^", .toRight 200)]

/-- The operators before one operand. -/
def unaryOps : List (String × UnaryOp) :=
  [(":-", .strict 1200), ("?-", .strict 1200), ("\\+", .repeatable 900),
    ("-", .repeatable 200), ("+", .repeatable 200)]

/-- The operator between two operands that has a name. -/
def binaryOp? (name : String) : Option BinaryOp := binaryOps.lookup name

/-- The operator before one operand that has a name. -/
def unaryOp? (name : String) : Option UnaryOp := unaryOps.lookup name

end HornLoops
