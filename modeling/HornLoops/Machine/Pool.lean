import HornLoops.Machine.Session

/-!
# Machines that share procedures

Several machines can work with one store of procedures. What one of them compiles, the others find there. A
pool keeps the store apart from its machines and lends it to the one that works.
-/

namespace HornLoops

/-- Machines, with the store that they share if they do. -/
structure Pool where
  /-- The machines. -/
  machines : Array Machine := #[]
  /-- The common store of procedures. -/
  common : Option Procedures := none

namespace Pool

/-- A pool without machines. -/
def empty (shares : Bool) : Pool := ⟨#[], if shares then some {} else none⟩

/-- The machine at a position, with the store it works with. -/
def get? (pool : Pool) (index : Nat) : Option Machine :=
  pool.machines[index]?.map fun machine =>
    { machine with procedures := pool.common.getD machine.procedures }

/-- Puts a machine back after it worked. -/
def put (pool : Pool) (index : Nat) (machine : Machine) : Pool :=
  ⟨pool.machines.setIfInBounds index machine, pool.common.map fun _ => machine.procedures⟩

/-- Adds a machine. -/
def add (pool : Pool) (settings : Settings) : Pool :=
  let machine := Machine.start settings (pool.common.getD {})
  ⟨pool.machines.push machine, pool.common.map fun _ => machine.procedures⟩

end Pool

end HornLoops
