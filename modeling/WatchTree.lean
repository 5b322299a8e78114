import WatchTree.Scenario.Line
import WatchTree.Proofs.Agreement
import WatchTree.Proofs.Removal
import WatchTree.Proofs.FirstValue
import WatchTree.Proofs.References
import WatchTree.Proofs.OrderlyMachines
import WatchTree.Proofs.OrderlySteps
import WatchTree.Proofs.Subscriptions
import WatchTree.Proofs.Following
import WatchTree.Proofs.Additions
import WatchTree.Proofs.Derivations
import WatchTree.Proofs.Fusion
import WatchTree.Proofs.FanOut
import WatchTree.Proofs.PollLoop
import WatchTree.Proofs.Severance
import WatchTree.Proofs.Containment
import WatchTree.Proofs.Applications
import WatchTree.Proofs.Acceptance
import WatchTree.Proofs.Wakeups
import WatchTree.Proofs.DeliveryOrder
import WatchTree.Proofs.Diagnostics
import WatchTree.Proofs.Leftovers
import WatchTree.Proofs.Lookups
import WatchTree.Proofs.Entries
import WatchTree.Proofs.Pauses
