import PulseMap.Engine.Store
import PulseMap.Library.Wrapping

/-!
`raw.rs`: the single-threaded map on byte keys and values. A vector indexed by bucket
or slot is a total function here, of which only the part below `numBuckets` is used.
An outer `none` is a panic of the slab pool.
-/

namespace PulseMap

structure SlotTTL where
  epoch : Word
  ttl : Word
deriving DecidableEq, Repr

namespace SlotTTL

def zero : SlotTTL := ⟨0, 0⟩

def effectiveTtl (self : SlotTTL) (defaultTtl : Word) : Word :=
  if self.ttl = 0#64 then defaultTtl else self.ttl

/-- The expiry test of both maps: `0` and `u64::MAX` never expire, otherwise the
wrapped age must exceed the effective ttl. -/
def expired (self : SlotTTL) (defaultTtl currentEpoch : Word) : Bool :=
  let effective := self.effectiveTtl defaultTtl
  if effective = 0#64 ∨ effective = BitVec.allOnes 64 then false
  else decide (effective < currentEpoch - self.epoch)

end SlotTTL

structure PulseMapRaw where
  buckets : Nat → Bucket
  slabPool : SlabPool
  numBuckets : Nat
  bucketMask : Nat
  count : Nat
  evictionCount : Nat
  slotsTtl : Nat → SlotTTL
  currentEpoch : Word
  defaultTtl : Word

namespace PulseMapRaw

/-- Above `2 ^ 56` buckets the vector exceeds `isize::MAX` bytes and `new` panics: there is no map then,
and the value here stands for nothing. -/
def new (numBuckets : Nat) : PulseMapRaw :=
  let actual := nextPowerOfTwo (max numBuckets 1)
  { buckets := fun _ => Bucket.empty
    slabPool := SlabPool.new
    numBuckets := actual
    bucketMask := actual - 1
    count := 0
    evictionCount := 0
    slotsTtl := fun _ => SlotTTL.zero
    currentEpoch := 0
    defaultTtl := 0 }

def setTtl (self : PulseMapRaw) (ttlEpochs : Word) : PulseMapRaw :=
  { self with defaultTtl := ttlEpochs }

def ttlAt (self : PulseMapRaw) (bucketIdx : Nat) (slot : Fin 4) : SlotTTL :=
  self.slotsTtl (bucketIdx * 4 + slot.val)

def isExpired (self : PulseMapRaw) (bucketIdx : Nat) (slot : Fin 4) : Bool :=
  (self.ttlAt bucketIdx slot).expired self.defaultTtl self.currentEpoch

def stampSlotTtl (self : PulseMapRaw) (bucketIdx : Nat) (slot : Fin 4) (ttl : Word) : PulseMapRaw :=
  { self with
    slotsTtl := Function.update self.slotsTtl (bucketIdx * 4 + slot.val)
      { epoch := self.currentEpoch, ttl := ttl } }

def findFreeOrExpired (self : PulseMapRaw) (bucketIdx : Nat) : Option (Fin 4) :=
  (List.finRange 4).find? fun slot =>
    (self.buckets bucketIdx).metaWord.getState slot ≠ .full ∨ self.isExpired bucketIdx slot

/-- Step 2 of an insert: the target slot and whether a Full slot is overwritten. -/
def chooseTarget (self : PulseMapRaw) (bucketIdx : Nat) : Option (Fin 4 × Bool) :=
  let packed := (self.buckets bucketIdx).metaWord
  match self.findFreeOrExpired bucketIdx with
  | some free => some (free, packed.getState free = .full)
  | none => packed.findEvictTarget.map fun evict => (evict, true)

/-- `if slot.get_mode() == 1 { slab_pool.free(slot.slab_idx()) }`. -/
def freeSlab (pool : SlabPool) (slot : Slot) : SlabPool :=
  if slot.getMode = 1#8 then pool.free slot.slabIdx else pool

variable (wyhash : Bytes → Word)

def bucketOf (self : PulseMapRaw) (key : Bytes) : Nat :=
  (computeHash wyhash key).h1.toNat &&& self.bucketMask

/-- The slot whose stored key equals `key`, by the candidate loop. -/
def locate (self : PulseMapRaw) (key : Bytes) : Option (Option (Fin 4)) :=
  let hr := computeHash wyhash key
  let bucket := self.buckets (self.bucketOf wyhash key)
  findMatch bucket self.slabPool key hr (bucket.candidates hr)

def withBucket (self : PulseMapRaw) (bucketIdx : Nat) (bucket : Bucket) (pool : SlabPool) :
    PulseMapRaw :=
  { self with buckets := Function.update self.buckets bucketIdx bucket, slabPool := pool }

/-- Step 1 of an insert, for a key found in `slot`. -/
def updateSlot (self : PulseMapRaw) (slot : Fin 4) (key value : Bytes) (ttl : Word) :
    Option PulseMapRaw := do
  let hr := computeHash wyhash key
  let bucketIdx := self.bucketOf wyhash key
  let bucket := self.buckets bucketIdx
  let pool := freeSlab self.slabPool (bucket.slots slot)
  let (data, pool) ← storeEntry hr key value (bucket.slots slot) pool
  some ((self.withBucket bucketIdx (bucket.update slot data) pool).stampSlotTtl bucketIdx slot ttl)

/-- The counters after a placement; an eviction replaces an entry instead of adding one. -/
def countPlacement (self : PulseMapRaw) (isEviction : Bool) : PulseMapRaw :=
  { self with
    evictionCount := if isEviction then self.evictionCount + 1 else self.evictionCount
    count := if isEviction then self.count else self.count + 1 }

/-- Step 3 of an insert, for the slot chosen by step 2. -/
def placeSlot (self : PulseMapRaw) (slot : Fin 4) (isEviction : Bool) (key value : Bytes)
    (ttl : Word) : Option PulseMapRaw := do
  let hr := computeHash wyhash key
  let bucketIdx := self.bucketOf wyhash key
  let bucket := self.buckets bucketIdx
  let pool := if isEviction then freeSlab self.slabPool (bucket.slots slot) else self.slabPool
  let (data, pool) ← storeEntry hr key value (bucket.slots slot) pool
  let stored := self.withBucket bucketIdx (bucket.place slot hr.h2 data) pool
  some ((stored.countPlacement isEviction).stampSlotTtl bucketIdx slot ttl)

/-- `current_epoch.wrapping_add(1)`, the first step of every insert. -/
def tick (self : PulseMapRaw) : PulseMapRaw := { self with currentEpoch := self.currentEpoch + 1 }

def insertInternal (self : PulseMapRaw) (key value : Bytes) (ttl : Word) : Option PulseMapRaw := do
  let self := self.tick
  match ← self.locate wyhash key with
  | some slot => self.updateSlot wyhash slot key value ttl
  | none =>
      match self.chooseTarget (self.bucketOf wyhash key) with
      | some (slot, isEviction) => self.placeSlot wyhash slot isEviction key value ttl
      | none => some self

def insert (self : PulseMapRaw) (key value : Bytes) : Option PulseMapRaw :=
  self.insertInternal wyhash key value 0#64

def insertTtl (self : PulseMapRaw) (key value : Bytes) (ttl : Word) : Option PulseMapRaw :=
  self.insertInternal wyhash key value ttl

/-- The read shared by `get` and `peek`: the slot hit and the value, unless expired. -/
def lookup (self : PulseMapRaw) (key : Bytes) : Option (Option (Fin 4 × Bytes)) := do
  let bucketIdx := self.bucketOf wyhash key
  match ← self.locate wyhash key with
  | none => some none
  | some slot =>
      if self.isExpired bucketIdx slot then some none
      else do
        let value ← ((self.buckets bucketIdx).slots slot).getValue self.slabPool
        some (some (slot, value))

def touch (self : PulseMapRaw) (bucketIdx : Nat) (slot : Fin 4) : PulseMapRaw :=
  let bucket := self.buckets bucketIdx
  self.withBucket bucketIdx { bucket with metaWord := bucket.metaWord.onAccess slot } self.slabPool

/-- `get` takes `&self` but boosts the priority of a hit inside the metadata word. -/
def get (self : PulseMapRaw) (key : Bytes) : Option (Option Bytes × PulseMapRaw) := do
  let bucketIdx := self.bucketOf wyhash key
  match ← self.lookup wyhash key with
  | none => some (none, self)
  | some (slot, value) =>
      some (some value, self.touch bucketIdx slot)

def peek (self : PulseMapRaw) (key : Bytes) : Option (Option Bytes) := do
  match ← self.lookup wyhash key with
  | none => some none
  | some (_, value) => some (some value)

def removeSlot (self : PulseMapRaw) (bucketIdx : Nat) (slot : Fin 4) : PulseMapRaw :=
  let bucket := self.buckets bucketIdx
  let pool := freeSlab self.slabPool (bucket.slots slot)
  { self.withBucket bucketIdx (bucket.tombstone slot) pool with count := self.count - 1 }

def remove (self : PulseMapRaw) (key : Bytes) : Option (Bool × PulseMapRaw) := do
  let bucketIdx := self.bucketOf wyhash key
  match ← self.locate wyhash key with
  | none => some (false, self)
  | some slot =>
      some (true, self.removeSlot bucketIdx slot)

def len (self : PulseMapRaw) : Nat := self.count

def capacity (self : PulseMapRaw) : Nat := self.numBuckets * 4

end PulseMapRaw

inductive RawOp where
  | insert (key value : Bytes)
  | insertTtl (key value : Bytes) (ttl : Word)
  | get (key : Bytes)
  | peek (key : Bytes)
  | remove (key : Bytes)
  | setTtl (ttl : Word)

inductive RawResult where
  | done
  | value (found : Option Bytes)
  | removed (found : Bool)

namespace RawOp

def insertion : RawOp → Option (Bytes × Bytes × Word)
  | insert key value => some (key, value, 0#64)
  | insertTtl key value ttl => some (key, value, ttl)
  | _ => none

def Sized (op : RawOp) : Prop :=
  ∀ key value ttl, op.insertion = some (key, value, ttl) → key.length + value.length < 2 ^ 32

variable (wyhash : Bytes → Word)

def apply (map : PulseMapRaw) : RawOp → Option (RawResult × PulseMapRaw)
  | insert key value => (map.insert wyhash key value).map (RawResult.done, ·)
  | insertTtl key value ttl => (map.insertTtl wyhash key value ttl).map (RawResult.done, ·)
  | get key => (map.get wyhash key).map fun (found, next) => (RawResult.value found, next)
  | peek key => (map.peek wyhash key).map fun found => (RawResult.value found, map)
  | remove key => (map.remove wyhash key).map fun (found, next) => (RawResult.removed found, next)
  | setTtl ttl => some (RawResult.done, map.setTtl ttl)

def run : PulseMapRaw → List RawOp → Option PulseMapRaw
  | map, [] => some map
  | map, op :: rest => do
      let (_, next) ← op.apply wyhash map
      run next rest

end RawOp

end PulseMap
