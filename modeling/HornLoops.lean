import HornLoops.Machine.Pool
import HornLoops.Main
import HornLoops.Proofs.Bindings.Histories
import HornLoops.Proofs.Definite.Query
import HornLoops.Proofs.Loop.Visits
import HornLoops.Proofs.Machine.Barriers
import HornLoops.Proofs.Machine.Calling
import HornLoops.Proofs.Machine.Counting
import HornLoops.Proofs.Machine.Enumerating
import HornLoops.Proofs.Machine.Enumeration
import HornLoops.Proofs.Machine.Limits
import HornLoops.Proofs.Machine.Locality
import HornLoops.Proofs.Machine.Lockstep
import HornLoops.Proofs.Reader.Atomic
import HornLoops.Proofs.Reader.Pieces
import HornLoops.Proofs.Reader.Places
import HornLoops.Proofs.Reader.Signs
import HornLoops.Proofs.Shell.Pending
import HornLoops.Proofs.Term.Variant
