import DsfMmu.EscapingBoundaries
import DsfMmu.Teardown
import DsfMmu.CowFailure
import DsfMmu.FailedAllocation
import DsfMmu.Transparency
import DsfMmu.ForkIsolation
import DsfMmu.EagerRefinement
import DsfMmu.ClosedMappings
import DsfMmu.CappedEviction
import DsfMmu.LogicalIds
import DsfMmu.FreshBlocks
import DsfMmu.LruEviction
import DsfMmu.CapacityRange
import DsfMmu.BatchRouting
import DsfMmu.DirtyBlocks
import DsfMmu.CleanBlocks
import DsfMmu.ContextTeardown
import DsfMmu.FlatRefinement
import DsfMmu.KvMain
import DsfMmu.ParallelMain
import DsfMmu.Retention
import DsfMmu.Competitive
import DsfMmu.Statuses
import DsfMmu.Isolation
import DsfMmu.MigrationRuns
import DsfMmu.Migration
