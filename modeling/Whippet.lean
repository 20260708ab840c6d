import Whippet.Library.Checked
import Whippet.Library.Population
import Whippet.Library.Rendezvous
import Whippet.Library.Processes
import Whippet.Library.Quotas
import Whippet.Library.Rounding
import Whippet.Library.Binary64
import Whippet.Types
import Whippet.Swar
import Whippet.Extents
import Whippet.Extents.Adjoin
import Whippet.Pcc.StopTheWorld
import Whippet.Pcc.StopTheWorldMoves
import Whippet.Pcc.StopTheWorldRefinement
import Whippet.Pcc.TraceLocks
import Whippet.Pcc.SelfDeadlock
import Whippet.Pcc.Bookkeeping
import Whippet.Nofl.Space
import Whippet.Nofl.Budget
import Whippet.Nofl.Expansion
import Whippet.Nofl.PageOut
import Whippet.Mmc.CollectionKind
import Whippet.Mmc.KindSequence
import Whippet.Mmc.ConservativeRefs
import Whippet.Mmc.StopTheWorld
import Whippet.Mmc.StopTheWorldRefinement
import Whippet.Mmc.Requests
import Whippet.Pcc.Requests
import Whippet.Pcc.CopySpace
import Whippet.Pcc.CopySpaceBudget
import Whippet.Pcc.Expansion
import Whippet.Pcc.LargeAllocation
import Whippet.Pcc.LargeAllocationBudget
import Whippet.Pcc.LargeAllocationFit
import Whippet.Pcc.LargeAllocationPayment
import Whippet.Pcc.Resizing
import Whippet.Pcc.ResizingSafety
import Whippet.Pcc.Promotion
import Whippet.Pcc.PromotionBudget
import Whippet.Pcc.PromotionSafety
import Whippet.Pcc.SharedSpace
import Whippet.Pcc.BlockPlaces
import Whippet.Pcc.BlockTurns
import Whippet.Pcc.BlockAccounting
import Whippet.Pcc.BlockRuns
import Whippet.Pcc.PromotionAge
import Whippet.Pcc.PromotionAgeFlags
import Whippet.Pcc.PromotionAgeRuns
import Whippet.Mmc.Bookkeeping
import Whippet.Mmc.Budget
import Whippet.Mmc.HeapSizer
import Whippet.Mmc.MaximumSize
import Whippet.Nofl.Metadata
import Whippet.Nofl.Objects
import Whippet.Nofl.ConservativeRefs
import Whippet.Nofl.Evacuate
import Whippet.Nofl.EvacuateProtocol
import Whippet.Nofl.EvacuateSoundness
import Whippet.Nofl.BlockLists
import Whippet.Nofl.Allocators
import Whippet.Nofl.AllocatedGranules
import Whippet.Nofl.BlockOwners
import Whippet.Nofl.BlockMoves
import Whippet.Nofl.BlockPartition
import Whippet.Nofl.EvacuationCandidates
import Whippet.Library.Layout
import Whippet.Library.Links
import Whippet.Library.AtomicStacks
import Whippet.Library.ArrayBags
import Whippet.Library.RobinHood
import Whippet.Library.LinearLog
import Whippet.Library.Mixers
import Whippet.Tables.HashTable
import Whippet.Tables.AddressHash
import Whippet.Tables.Slots
import Whippet.Tables.Probing
import Whippet.Tables.Operations
import Whippet.Tables.Refinement
import Whippet.Library.SplayTree
import Whippet.Splay.Loop
import Whippet.Splay.OrderedMap
import Whippet.Library.BackLinks
import Whippet.Library.Bytes
import Whippet.Library.Contracts
import Whippet.Library.Histories
import Whippet.Lospace.Space
import Whippet.Lospace.Freelists
import Whippet.Lospace.Structure
import Whippet.Lospace.ConservativeRefs
import Whippet.Lospace.Allocation
import Whippet.Lospace.Sweeping
import Whippet.Lospace.Quarantine
import Whippet.Lospace.Runs
import Whippet.Lospace.Reuse
import Whippet.Lospace.Nursery
import Whippet.Lospace.Counters
import Whippet.Lospace.PageAccounting
import Whippet.Semi.Space
import Whippet.Semi.Budget
import Whippet.Semi.Resizing
import Whippet.Semi.Copying
import Whippet.Semi.HeapGraph
import Whippet.Semi.CopyingInvariant
import Whippet.Semi.CopyingProgress
import Whippet.Semi.CopyingSoundness
import Whippet.Library.Closure
import Whippet.Ephemeron.Tracing
import Whippet.Ephemeron.Liveness
import Whippet.Ephemeron.Invariant
import Whippet.Ephemeron.Work
import Whippet.Ephemeron.Fixpoint
import Whippet.Ephemeron.Termination
import Whippet.Ephemeron.PendingBuckets
import Whippet.Nofl.Holes
import Whippet.Nofl.HolesetInventory
import Whippet.Nofl.HolesetOperations
import Whippet.Nofl.HolesetRuns
import Whippet.Nofl.SweepBlock
import Whippet.Nofl.SweptBlock
import Whippet.Nofl.BlockLife
import Whippet.Nofl.BlockHolding
import Whippet.Nofl.Fragmentation
import Whippet.Background.TaskList
import Whippet.Worklist.Deque
import Whippet.Worklist.PushMany
import Whippet.Worklist.SimpleWorklist
import Whippet.Worklist.SimpleQueue
import Whippet.Library.Numerals
import Whippet.Options.CommonOptions
import Whippet.Options.ParseMany
import Whippet.Tables.Union
import Whippet.Swar.ByteScans
import Whippet.Histogram
import Whippet.Library.Fronts
import Whippet.Library.DepthFirst
import Whippet.Ephemeron.ListTraversal
import Whippet.Ephemeron.ListInvariant
import Whippet.Ephemeron.ListElision
import Whippet.Finalizer.Resolution
import Whippet.Finalizer.ResolutionOrder
import Whippet.Finalizer.AttachmentOrder
import Whippet.Finalizer.Calls
import Whippet.Finalizer.CallInvariant
import Whippet.Finalizer.CallSteps
import Whippet.Finalizer.CallRuns
import Whippet.Finalizer.Precedence
import Whippet.Finalizer.ResolvedLists
import Whippet.Finalizer.ResolvedTables
import Whippet.FieldSet.Calls
import Whippet.FieldSet.Invariant
import Whippet.FieldSet.WriterRules
import Whippet.FieldSet.WriterSteps
import Whippet.FieldSet.WriterAccesses
import Whippet.FieldSet.CollectorSteps
import Whippet.FieldSet.Runs
import Whippet.AllocationCounter
import Whippet.Mmc.AllocationCounter
import Whippet.Pcc.AllocationCounter
import Whippet.AllocationCounter.Collectors
