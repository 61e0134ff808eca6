import Neuralbase.Auth.Scram
import Neuralbase.Auth.Users
import Neuralbase.Cluster
import Neuralbase.Consensus.Safety.Election
import Neuralbase.Consensus.Safety.Frontiers
import Neuralbase.Consensus.Safety.Redelivery
import Neuralbase.Consensus.Transport
import Neuralbase.Distributed.Channel
import Neuralbase.Distributed.Gather
import Neuralbase.JoinGraph
import Neuralbase.Operator.Convergence
import Neuralbase.Pitr.Listing
import Neuralbase.Pitr.Retention
import Neuralbase.Query.Delivery
import Neuralbase.Query.JoinBudget
import Neuralbase.Query.Like
import Neuralbase.Query.Window
import Neuralbase.RaftPersistence.Refines
import Neuralbase.Recovery.Membership
import Neuralbase.Replicated.Snapshot.Canonical
import Neuralbase.Replicated.Sql.Canonical
import Neuralbase.Server.Session
import Neuralbase.Sql.Calendar
import Neuralbase.Sql.PlanCache
import Neuralbase.Statements.Recreate
import Neuralbase.Storage.Clock
import Neuralbase.Storage.Gc.Exact
import Neuralbase.Storage.Gc.Invisible
import Neuralbase.Storage.Registry
import Neuralbase.Vectorized.Filter
import Neuralbase.Vectorized.Join
