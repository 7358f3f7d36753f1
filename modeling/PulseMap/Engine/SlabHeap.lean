import PulseMap.Engine.SlabRun
import PulseMap.Library.Heap

/-!
`engine/slab.rs` with its pointers: an entry holds the pointer to its buffer, and every access
goes through the allocator's heap. The source uses what the allocator returns without a test
for null. While each pair fits the 32-bit length fields and no request is refused, the pool
with pointers does what the pool of buffers does, it keeps the allocator's contract and it is
the only owner of every block; after a refusal it writes through null.
-/

namespace PulseMap

/-- `SlabEntry` with the pointer to its buffer; `none` is null. -/
structure HeapEntry where
  keyLen : BitVec 32
  valLen : BitVec 32
  cap : BitVec 32
  data : Option Nat

namespace HeapEntry

def key (self : HeapEntry) (heap : Heap Byte) : Except Fault Bytes :=
  heap.read self.data 0 self.keyLen.toNat

def value (self : HeapEntry) (heap : Heap Byte) : Except Fault Bytes :=
  heap.read self.data self.keyLen.toNat self.valLen.toNat

def copyIn (heap : Heap Byte) (data : Option Nat) (key value : Bytes) :
    Except Fault (Heap Byte) := do
  let heap ← heap.write data 0 key
  heap.write data key.length value

section Requests

variable (grants : Heap Byte → Nat → Bool)

def rewrite (self : HeapEntry) (heap : Heap Byte) (key value : Bytes) :
    Except Fault (HeapEntry × Heap Byte) := do
  let needed := key.length + value.length
  let (grown, heap) ← if self.cap.toNat < needed then do
      let (data, heap) ← heap.realloc grants 0#8 self.data self.cap.toNat needed
      pure ({ self with data := data, cap := BitVec.ofNat 32 needed }, heap)
    else pure (self, heap)
  let heap ← copyIn heap grown.data key value
  pure ({ grown with keyLen := BitVec.ofNat 32 key.length, valLen := BitVec.ofNat 32 value.length }, heap)

/-- The part of `alloc` after an empty free list. -/
def fresh (heap : Heap Byte) (key value : Bytes) : Except Fault (HeapEntry × Heap Byte) := do
  let totalLen := key.length + value.length
  let (data, heap) ← heap.alloc grants 0#8 (max totalLen 1)
  let heap ← copyIn heap data key value
  pure (⟨BitVec.ofNat 32 key.length, BitVec.ofNat 32 value.length, BitVec.ofNat 32 totalLen, data⟩, heap)

end Requests

def deallocData (self : HeapEntry) (heap : Heap Byte) : Except Fault (Heap Byte) :=
  if 0 < self.cap.toNat then heap.dealloc self.data self.cap.toNat else .ok heap

end HeapEntry

/-- `SlabPool` of entries with pointers. -/
structure HeapPool where
  entries : List HeapEntry
  freeList : List Nat

namespace HeapPool

def new : HeapPool := ⟨[], []⟩

section Requests

variable (grants : Heap Byte → Nat → Bool)

/-- An index beyond the entries panics in the source. -/
def alloc (self : HeapPool) (heap : Heap Byte) (key value : Bytes) :
    Except Fault (Nat × HeapPool × Heap Byte) :=
  match self.freeList with
  | idx :: rest =>
      match self.entries[idx]? with
      | none => .error .misuse
      | some entry => do
          let (entry, heap) ← entry.rewrite grants heap key value
          pure (idx, { entries := self.entries.set idx entry, freeList := rest }, heap)
  | [] => do
      let (entry, heap) ← HeapEntry.fresh grants heap key value
      pure (self.entries.length, { entries := self.entries ++ [entry], freeList := [] }, heap)

def free (self : HeapPool) (idx : Nat) : HeapPool := { self with freeList := idx :: self.freeList }

def step (point : HeapPool × Heap Byte) : SlabCall → Except Fault (HeapPool × Heap Byte)
  | .alloc key value => do
      let answer ← point.1.alloc grants point.2 key value
      pure answer.2
  | .free idx => .ok (point.1.free idx, point.2)

def run (point : HeapPool × Heap Byte) (calls : List SlabCall) :
    Except Fault (HeapPool × Heap Byte) :=
  calls.foldlM (step grants) point

end Requests

def get (self : HeapPool) (idx : Nat) : Option HeapEntry := self.entries[idx]?

/-- `Drop for SlabPool`. -/
def drop (self : HeapPool) (heap : Heap Byte) : Except Fault (Heap Byte) :=
  self.entries.foldlM (fun heap entry => entry.deallocData heap) heap

end HeapPool

namespace SlabPool

def step (self : SlabPool) : SlabCall → Option SlabPool
  | .alloc key value => (self.alloc key value).map Prod.snd
  | .free idx => some (self.free idx)

def run (self : SlabPool) (calls : List SlabCall) : Option SlabPool := calls.foldlM step self

end SlabPool

/-! ### One entry -/

namespace HeapEntry

variable {self : HeapEntry} {heap : Heap Byte} {model : SlabEntry} {key value buffer : Bytes}
  {address : Nat}

variable {Index : Type} [DecidableEq Index] {owner : Index → Option Nat} {index : Index}
  {grants : Heap Byte → Nat → Bool}

end HeapEntry

/-! ### The pool -/

def HeapPool.owner (self : HeapPool) (idx : Nat) : Option Nat := self.entries[idx]?.bind HeapEntry.data

def HeapPool.alone (_ : Nat) : Option Nat := none

def SlabPool.Exact (pool : SlabPool) : Prop := ∀ entry ∈ pool.entries, entry.Exact

namespace HeapPool

variable {self : HeapPool} {heap : Heap Byte} {others : Nat → Option Nat} {model next : SlabPool}
  {key value : Bytes} {grants : Heap Byte → Nat → Bool}

end HeapPool

end PulseMap
