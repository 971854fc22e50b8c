import NullGuard.Analysis.Run
import NullGuard.Operation.Build
import NullGuard.Summary.Request
import NullGuard.Proofs.Memo
import NullGuard.Proofs.Domain
import NullGuard.Proofs.Postorder
import NullGuard.Proofs.Reachability
import NullGuard.Proofs.Worklist
import NullGuard.Proofs.Fixpoint
import NullGuard.Proofs.Trace
import NullGuard.Proofs.Flow
import NullGuard.Proofs.States
import NullGuard.Proofs.Scope
import NullGuard.Proofs.Cellwise
import NullGuard.Proofs.Hazards
import NullGuard.Proofs.Replay
import NullGuard.Proofs.Unlimited
import NullGuard.Proofs.CallChain
import NullGuard.Proofs.Outcome
import NullGuard.Proofs.Serving
import NullGuard.Proofs.Convergence
import NullGuard.Proofs.Recursion
import NullGuard.Proofs.Lockstep
import NullGuard.Proofs.ThrowPolicy
import NullGuard.Proofs.StraightLine
import NullGuard.Proofs.Relay
import NullGuard.Proofs.Wiring
import NullGuard.Proofs.Semilattice
import NullGuard.Proofs.Budget
import NullGuard.Proofs.SinglePass
import NullGuard.Proofs.EarliestSite
import NullGuard.Proofs.Monotone
import NullGuard.Proofs.ChainMirror
import NullGuard.Proofs.OptionMapping
import NullGuard.Proofs.LookThrough
import NullGuard.Proofs.Ancestry
import NullGuard.Proofs.DuplicateOrdinal
