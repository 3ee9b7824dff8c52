import Flock.FreeLunch
import Flock.PerToken
import Flock.Streaming
import Flock.Convergence
import Flock.Band
import Flock.Paid
import Flock.ProRata
import Flock.SplitIssue
import Flock.Targets
import Flock.NavLoss
import Flock.Outflow
import Flock.Lifecycle
import Flock.Authority
import Flock.Provenance
import Flock.Schedule
import Flock.Seeding
import Flock.FillCost
import Flock.NavFloor
import Flock.Quotes
import Flock.Interposed
import Flock.Lib.Replay
import Flock.Keeper
import Flock.Refusals
import Flock.Priced
import Flock.Planned
import Flock.Execution
import Flock.PlanRun
import Flock.SoleBid
import Flock.Redemption
import Flock.Wire
import Flock.Standing
import Flock.Readback
import Flock.Curves
import Flock.Weights
import Flock.Acceptance
import Flock.Names
import Flock.Lib.LastWins
import Flock.Lib.Double
import Flock.Lib.Base58
import Flock.Allocation
import Flock.Watched
import Flock.InRange
import Flock.Consent
import Flock.Pass
import Flock.Create
import Flock.Lib.DoubleError
import Flock.Lib.Decimal
import Flock.Amounts
import Flock.Prices
import Flock.Torn
import Flock.Orders
import Flock.Bids
import Flock.View
import Flock.Parallel
