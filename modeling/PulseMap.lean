import PulseMap.Library.BitField
import PulseMap.Library.ByteRange
import PulseMap.Engine.Meta
import PulseMap.Engine.Hash
import PulseMap.Engine.Slab
import PulseMap.Library.FreeList
import PulseMap.Engine.Slot
import PulseMap.Engine.Store
import PulseMap.Raw.Map
import PulseMap.Raw.Invariant
import PulseMap.Raw.Effect
import PulseMap.Raw.Cache
import PulseMap.Raw.Priority
import PulseMap.Library.Wrapping
import PulseMap.Engine.AccessBuffer
import PulseMap.Engine.Ring
import PulseMap.Engine.RingPhase
import PulseMap.Engine.RingInvariant
import PulseMap.Engine.RingDelivery
import PulseMap.Engine.SlabRun
import PulseMap.Raw.Counting
import PulseMap.Raw.Commute
import PulseMap.Sync.Linearizable
import PulseMap.Library.Trace
import PulseMap.Sync.Standing
import PulseMap.Sync.Conduct
import PulseMap.Sync.Locking
import PulseMap.Sync.LockOrder
import PulseMap.Sync.Deadlock
import PulseMap.Sync.Counters
import PulseMap.Sync.Expiry
import PulseMap.Sync.LoadBound
import PulseMap.Sync.Ownership
import PulseMap.Sync.Resize
import PulseMap.Sync.Equivalence
import PulseMap.Engine.Packing
import PulseMap.Engine.Simd
import PulseMap.Engine.Contention
import PulseMap.Library.RetryLoop
import PulseMap.Sync.Sharding
import PulseMap.Sync.Encoding
import PulseMap.Engine.RingQueue
import PulseMap.Raw.Entry
import PulseMap.Raw.Conversion
import PulseMap.Raw.Memory
import PulseMap.Library.Unwinding
import PulseMap.Raw.Reads
import PulseMap.Raw.Deferred
import PulseMap.Library.Splitting
import PulseMap.Sync.ShardedMap
import PulseMap.Sync.ShardedTotals
import PulseMap.Sync.Accesses
import PulseMap.Sync.Draining
import PulseMap.Sync.Memory
import PulseMap.Library.Progress
import PulseMap.Sync.LockLevel
import PulseMap.Sync.Progress
import PulseMap.Sync.ShardedProgress
