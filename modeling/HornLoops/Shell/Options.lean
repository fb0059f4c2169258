import HornLoops.Machine.State

/-!
# Options of the shell

What a user can ask for when the shell is started.
-/

namespace HornLoops.Shell

/-- What the user asked for. -/
structure Options where
  /-- Files to consult before anything else. -/
  load : List String := []
  /-- A query to answer instead of a conversation. -/
  exec : Option String := none
  /-- A file with queries to answer instead of a conversation. -/
  file : Option String := none
  /-- Whether loops are carried out directly. -/
  interpret : Bool := false
  /-- Whether loops are compiled only when they are reached. -/
  noExpand : Bool := false
  /-- Whether one answer to each query is enough. -/
  once : Bool := false
  /-- How deeply calls may be nested. -/
  depthLimit : Option Nat := none
  /-- Whether the procedures are shown at the end. -/
  listing : Bool := false
deriving DecidableEq, Repr

namespace Options

/-- The settings of the machine that the shell works with. -/
def settings (options : Options) : Settings where
  mode := if options.interpret then .interpreted else .compiled
  expandAhead := !options.noExpand
  depthLimit := options.depthLimit

end Options

end HornLoops.Shell
