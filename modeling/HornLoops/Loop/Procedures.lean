import HornLoops.Loop.Plan

/-!
# The store of procedures

Loops that are variants of each other share one procedure. The store keeps procedures in the order of their
registration, each under the signature of its loop; nothing is ever replaced or taken out. Names are
numbered, and a number is used up as soon as a procedure is begun: procedures of inner loops are registered
before those of the loops around them but have larger numbers, and a number is lost if its procedure fails.
-/

namespace HornLoops

/-- What makes two loops share a procedure: their settled iterators and body in normal form. -/
structure Signature where
  /-- The loop in normal form. -/
  shape : Term
deriving DecidableEq, Repr

namespace Signature

/-- The signature of a loop. -/
def ofLoop (specs body : Term) : Signature := ⟨(Term.binary "do" specs body).normalize.term⟩

end Signature

/-- A registered procedure. -/
structure ProcedureEntry where
  /-- The signature it is registered under. -/
  signature : Signature
  /-- The procedure. -/
  procedure : Procedure
deriving DecidableEq, Repr

/-- The registered procedures. A procedure is known by its position, its handle. -/
structure Procedures where
  /-- The procedures in the order of their registration. -/
  entries : List ProcedureEntry := []
  /-- How many names were given out. -/
  issued : Nat := 0
deriving DecidableEq, Repr, Inhabited

/-- Where a procedure is registered. -/
structure Registration where
  /-- The position of the procedure. -/
  handle : Nat
  /-- The name of the procedure. -/
  name : String
  /-- Whether the procedure was added by this registration. -/
  isNew : Bool
deriving DecidableEq, Repr

namespace Procedures

/-- The number of procedures. -/
def size (procedures : Procedures) : Nat := procedures.entries.length

/-- All procedures, in the order of their registration. -/
def toList (procedures : Procedures) : List Procedure := procedures.entries.map (·.procedure)

/-- The procedure at a position. -/
def get? (procedures : Procedures) (handle : Nat) : Option Procedure :=
  procedures.entries[handle]?.map (·.procedure)

/-- The position of the procedure with a signature. -/
def lookup? (procedures : Procedures) (signature : Signature) : Option Nat :=
  procedures.entries.findIdx? fun entry => entry.signature = signature

/-- The procedure with a name. -/
def named? (procedures : Procedures) (name : String) : Option Procedure :=
  procedures.toList.find? fun procedure => procedure.name = name

/-- The registration of the procedure with a signature. -/
def registered? (procedures : Procedures) (signature : Signature) : Option Registration := do
  let handle ← procedures.lookup? signature
  let procedure ← procedures.get? handle
  return ⟨handle, procedure.name, false⟩

/-- The name with a number. -/
def nameOf (number : Nat) : String := "do__" ++ toString number

/-- The store with one more name given out. -/
def issue (procedures : Procedures) : Procedures :=
  { procedures with issued := procedures.issued + 1 }

/-- Adds a procedure at the end, unless there is one with that signature. -/
def add (procedures : Procedures) (signature : Signature) (procedure : Procedure) :
    Registration × Procedures :=
  match procedures.registered? signature with
  | some registration => (registration, procedures)
  | none =>
    (⟨procedures.size, procedure.name, true⟩,
      { procedures with entries := procedures.entries ++ [⟨signature, procedure⟩] })

end Procedures

/-- What compiling a loop takes from and adds to: the supply of variables and the procedures. -/
structure Compilation where
  /-- The number of the next variable. -/
  next : Nat
  /-- The registered procedures. -/
  procedures : Procedures

/-- A computation that may take new variables, may register procedures and may fail. What it took and
registered stays when it fails. -/
abbrev Compiler := EStateM LoopError Compilation

namespace Compiler

/-- Carries out a computation that only takes new variables. -/
def supplied {α : Type} (action : Supplied LoopError α) : Compiler α := fun compilation =>
  match action compilation.next with
  | .ok value next => .ok value { compilation with next := next }
  | .error error next => .error error { compilation with next := next }

/-- Gives out the next name. -/
def issueName : Compiler String := modifyGet fun compilation =>
  (Procedures.nameOf compilation.procedures.issued,
    { compilation with procedures := compilation.procedures.issue })

/-- Adds a procedure. -/
def add (signature : Signature) (procedure : Procedure) : Compiler Registration :=
  modifyGet fun compilation =>
    let (registration, procedures) := compilation.procedures.add signature procedure
    (registration, { compilation with procedures := procedures })

/-- The registration of the procedure with a signature. If there is none, one is made under a new name,
and what its making found out is handed back too. -/
def register {α : Type} (signature : Signature) (make : String → Compiler (Procedure × List α)) :
    Compiler (Registration × List α) := do
  match (← get).procedures.registered? signature with
  | some registration => return (registration, [])
  | none =>
    let (procedure, findings) ← make (← issueName)
    return (← add signature procedure, findings)

end Compiler

end HornLoops
