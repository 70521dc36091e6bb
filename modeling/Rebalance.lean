import Rebalance.Double.Bits
import Rebalance.Optimizer
import Rebalance.Settings.Reading
import Rebalance.Settings.Registry
import Rebalance.Logging
import Rebalance.Proofs.Ranking
import Rebalance.Proofs.View
import Rebalance.Proofs.Cluster.Relocation
import Rebalance.Proofs.Cluster.Stable
import Rebalance.Proofs.Cluster.Change
import Rebalance.Proofs.Attempt
import Rebalance.Proofs.Distribution.Demand
import Rebalance.Proofs.Distribution.Passes
import Rebalance.Proofs.Distribution.Rounds
import Rebalance.Proofs.Cluster.Census
import Rebalance.Proofs.Distribution.Pursuit
import Rebalance.Proofs.History
import Rebalance.Proofs.Consistency
import Rebalance.Proofs.Distribution.Counting
import Rebalance.Proofs.Distribution.Verdict
import Rebalance.Proofs.Distribution.Views
import Rebalance.Proofs.Distribution.Satisfaction
import Rebalance.Proofs.Distribution.Queues
import Rebalance.Proofs.Distribution.Steps
import Rebalance.Proofs.Distribution.Exhaustion
import Rebalance.Proofs.Distribution.Tending
import Rebalance.Proofs.Distribution.Diagnostics
import Rebalance.Proofs.Cluster.Spread
import Rebalance.Proofs.Distribution.Faultless
import Rebalance.Proofs.Distribution.Evacuation
import Rebalance.Proofs.Tracking
import Rebalance.Proofs.Distribution.Balance
import Rebalance.Proofs.Cluster.Trail
import Rebalance.Proofs.Journal
import Rebalance.Proofs.Distribution.Itinerary
import Rebalance.Proofs.Distribution.Progress
import Rebalance.Proofs.Double
import Rebalance.Proofs.Statistics
import Rebalance.Proofs.Distribution.Variance
import Rebalance.Proofs.Distribution.Records
import Rebalance.Proofs.Distribution.Respect
import Rebalance.Proofs.Distribution.Permission
import Rebalance.Proofs.Distribution.Retention
import Rebalance.Proofs.Distribution.Alarms
import Rebalance.Proofs.Leadership
import Rebalance.Proofs.Distribution.LifeCycle
import Rebalance.Proofs.Cluster.Placement
import Rebalance.Proofs.Proposals
import Rebalance.Proofs.Lockstep
import Rebalance.Proofs.Cluster.Pairing
import Rebalance.Proofs.Distribution.Lockstep
import Rebalance.Proofs.Distribution.Determined
import Rebalance.Proofs.Distribution.Underway
import Rebalance.Proofs.Distribution.Thorough
import Rebalance.Proofs.Distribution.Anew
import Rebalance.Proofs.Disorder
import Rebalance.Proofs.Refusal
import Rebalance.Proofs.Reversal
import Rebalance.Proofs.Distribution.Fullest
import Rebalance.Proofs.Distribution.Repetition
import Rebalance.Proofs.Nearest
import Rebalance.Proofs.Arithmetic
import Rebalance.Proofs.Limits
import Rebalance.Proofs.Distribution.Preparation
import Rebalance.Proofs.Distribution.Newcomers
import Rebalance.Proofs.Choice
import Rebalance.Proofs.BrokerSet
import Rebalance.Proofs.Settings.Memory
import Rebalance.Proofs.Settings.Storing
import Rebalance.Proofs.Settings.Environment
