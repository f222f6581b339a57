import PullIter.Layout.Source
import PullIter.Proofs.Apart.Isolation
import PullIter.Proofs.Exec.Shadowing
import PullIter.Proofs.Ownership.Balance
import PullIter.Proofs.Shared.Outcomes
import PullIter.Proofs.Tree.Drain
import PullIter.Registry.Script
import PullIter.Session.Run
import PullIter.Workbench
import PullIter.Proofs.Unit.Naming
import PullIter.Proofs.Layout.Remembered
import PullIter.Proofs.Layout.Leaves
import PullIter.Proofs.Layout.Encoding
import PullIter.Proofs.Layout.Arguments
import PullIter.Proofs.Apart.Alive
import PullIter.Proofs.Host.Atomicity
import PullIter.Proofs.Unit.History
import PullIter.Proofs.Host.Starts
import PullIter.Proofs.Tree.Aliased
import PullIter.Proofs.Unit.Identities
import PullIter.Proofs.Unit.Order
import PullIter.Proofs.Host.Generators
import PullIter.Proofs.Unit.Coherence
import PullIter.Proofs.Host.Ranges
