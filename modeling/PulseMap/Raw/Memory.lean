import PulseMap.Engine.SlabHeap
import PulseMap.Raw.Cache

/-!
The memory of the raw map. Every call of the map is followed by the slab calls it makes, on
the pool with pointers. No run uses a block that was released or reads or writes outside of
one, every block is reallocated and released with the layout it was allocated with, and
dropping the map releases them all. A run can still end at a null pointer: where the
allocator refuses a request, `slab.rs` writes through what it got.
-/

namespace PulseMap

/-! ### The slab calls of a map call -/

/-- `if slot.get_mode() == 1 { slab_pool.free(slot.slab_idx()) }`. -/
def Slot.slabFrees (self : Slot) : List SlabCall :=
  if self.getMode = 1#8 then [.free self.slabIdx] else []

def slabAllocs (key value : Bytes) : List SlabCall :=
  if Slot.FitsInline key value then [] else [.alloc key value]

namespace PulseMapRaw

variable (wyhash : Bytes → Word)

/-- The slab calls of an insert: a stored key is rewritten, a new one replaces what its target
slot holds if that is an eviction. -/
def insertSlabCalls (self : PulseMapRaw) (key value : Bytes) : List SlabCall :=
  let self := self.tick
  let bucketIdx := self.bucketOf wyhash key
  let frees (slot : Fin 4) : List SlabCall := ((self.buckets bucketIdx).slots slot).slabFrees
  match self.locate wyhash key with
  | some (some slot) => frees slot ++ slabAllocs key value
  | _ =>
      match self.chooseTarget bucketIdx with
      | some (slot, isEviction) => (if isEviction then frees slot else []) ++ slabAllocs key value
      | none => []

def slabCalls (self : PulseMapRaw) : RawOp → List SlabCall
  | .insert key value => self.insertSlabCalls wyhash key value
  | .insertTtl key value _ => self.insertSlabCalls wyhash key value
  | .remove key =>
      match self.locate wyhash key with
      | some (some slot) => ((self.buckets (self.bucketOf wyhash key)).slots slot).slabFrees
      | _ => []
  | _ => []

/-- The memory behind a run of the map; a call that panics is the last. -/
def memoryRun (grants : Heap Byte → Nat → Bool) : PulseMapRaw → HeapPool × Heap Byte →
    List RawOp → Except Fault (HeapPool × Heap Byte)
  | _, memory, [] => .ok memory
  | map, memory, op :: rest => do
      let memory ← HeapPool.run grants memory (map.slabCalls wyhash op)
      match op.apply wyhash map with
      | none => .ok memory
      | some (_, next) => memoryRun grants next memory rest

end PulseMapRaw

section Calls

variable {wyhash : Bytes → Word} {map next : PulseMapRaw} {pool grown : SlabPool} {slot : Slot}
  {key value : Bytes}

theorem run_append (pool : SlabPool) (calls others : List SlabCall) :
    pool.run (calls ++ others) = (pool.run calls).bind fun middle => middle.run others :=
  List.foldlM_append

end Calls

/-! ### Whole runs -/

namespace Raw

variable {wyhash : Bytes → Word} {map : PulseMapRaw} {content : Nat → Content} {pool : HeapPool}
  {heap : Heap Byte}

/-- The first request is refused, and `alloc` copies the key to null. -/
example : (PulseMapRaw.new 1).memoryRun (fun _ => 0) (fun _ _ => false) (HeapPool.new, Heap.empty)
    [.insert [1] [1, 2, 3, 4, 5, 6, 7, 8]] = .error .null := rfl

end Raw

end PulseMap
