import Latchkey.Main
import Latchkey.Scenario.Bench
import Latchkey.Proofs.GuardedSections
import Latchkey.Proofs.ShardedAcquire
import Latchkey.Proofs.Threads
import Latchkey.Proofs.StoreFailures
import Latchkey.Proofs.ReplicaQuorum
import Latchkey.Proofs.GuardedExecution
import Latchkey.Proofs.FilterRuns
import Latchkey.Proofs.LostTokens
import Latchkey.Proofs.Abandoned
import Latchkey.Proofs.GrantedLocks
import Latchkey.Proofs.LateTokens
import Latchkey.Proofs.ReplicaWaits
import Latchkey.Proofs.Purges
import Latchkey.Proofs.Renaming
import Latchkey.Proofs.Deployments
import Latchkey.Proofs.Sessions
import Latchkey.Proofs.FilterContents
import Latchkey.Proofs.FilterExpiry
import Latchkey.Proofs.LockLifetimes
import Latchkey.Proofs.PoolBalance
import Latchkey.Proofs.ClusterLayouts
import Latchkey.Proofs.Independence
import Latchkey.Proofs.Closing
import Latchkey.Proofs.FailedReleases
import Latchkey.Proofs.DroppedAcquisitions
import Latchkey.Proofs.ForgottenEntries
import Latchkey.Proofs.NotedTokens
import Latchkey.Proofs.ReleaseOutcomes
import Latchkey.Proofs.RetryBudget
import Latchkey.Proofs.Contests
import Latchkey.Proofs.SlotLookup
import Latchkey.Proofs.BitWrites
import Latchkey.Proofs.HashTags
import Latchkey.Proofs.FilterSizes
import Latchkey.Proofs.SeedHosts
import Latchkey.Proofs.MetricsBalance
import Latchkey.Proofs.Registries
import Latchkey.Proofs.MutualExclusion
