import PulseMap.Raw.Map

/-!
The layout of the concurrent map and its rebuilding by `resize` in `sync.rs`: the entries
are collected from the Full slots of the old layout and placed one by one into the empty
buckets of the new one. The content of a layout is carried along for the proofs.
-/

namespace PulseMap

/-- `with_config`, with the hash function as a parameter. -/
structure SyncConfig where
  autoResize : Bool
  shardedIndex : Bool
  wyhash : Bytes → Word

/-- `bucket_hash` of `sharded.rs`: the four routing bits 14..17 are taken out. -/
def bucketHash (hash : Word) : Word := (hash &&& 0x3FFF#64) ||| ((hash >>> 4) &&& ~~~0x3FFF#64)

namespace SyncConfig

def hash (self : SyncConfig) (key : Bytes) : HashResult := computeHash self.wyhash key

def bucketIndex (self : SyncConfig) (hash : Word) (mask : Nat) : Nat :=
  (if self.shardedIndex then bucketHash hash else hash).toNat &&& mask

end SyncConfig

/-- The vectors of a layout hold at most `isize::MAX` bytes, and a bucket takes 64: one of
more buckets than this makes the allocation panic. -/
def SyncMap.maxBuckets : Nat := 2 ^ 56

/-- `MapInner` without its locks. -/
structure Layout where
  buckets : Nat → Bucket
  slabPool : SlabPool
  numBuckets : Nat
  bucketMask : Nat
  epochs : Nat → SlotTTL
  content : Nat → Content

namespace Layout

def fresh (actual : Nat) : Layout :=
  { buckets := fun _ => Bucket.empty
    slabPool := SlabPool.new
    numBuckets := actual
    bucketMask := actual - 1
    epochs := fun _ => SlotTTL.zero
    content := fun _ _ => none }

/-- `MapInner::new`. -/
def new (numBuckets : Nat) : Layout := fresh (nextPowerOfTwo (max numBuckets 1))

def rewrite (self : Layout) (bucketIdx : Nat) (slot : Fin 4) (written : Bucket)
    (entry : Option (Bytes × Bytes)) : Layout :=
  { self with
    buckets := Function.update self.buckets bucketIdx written
    content := Function.update self.content bucketIdx
      (Function.update (self.content bucketIdx) slot entry) }

end Layout

structure EntryData where
  keyBytes : Bytes
  valBytes : Bytes
  slotTtl : SlotTTL

namespace Layout

/-- The entry of one slot, if it is Full; an outer `none` is a panic. -/
def entryAt (self : Layout) (bucketIdx : Nat) (slot : Fin 4) : Option (Option EntryData) :=
  if (self.buckets bucketIdx).metaWord.getState slot ≠ .full then some none
  else do
    let data := (self.buckets bucketIdx).slots slot
    let key ← data.getKeyBytes self.slabPool
    let value ← data.getValueBytes self.slabPool
    some (some ⟨key, value, self.epochs (bucketIdx * 4 + slot.val)⟩)

def places (numBuckets : Nat) : List Position :=
  (List.range numBuckets).flatMap fun bucketIdx => (List.finRange 4).map (bucketIdx, ·)

def collect (self : Layout) : List Position → Option (List EntryData)
  | [] => some []
  | (bucketIdx, slot) :: rest => do
      let found ← self.entryAt bucketIdx slot
      let others ← self.collect rest
      some (found.toList ++ others)

variable (config : SyncConfig)

/-- One placement into the first free slot of the entry's bucket; an inner `none` is the
overflow of that bucket, an outer one a panic. -/
def insertEntry (self : Layout) (entry : EntryData) : Option (Option Layout) :=
  let hr := config.hash entry.keyBytes
  let newIdx := config.bucketIndex hr.h1 self.bucketMask
  let bucket := self.buckets newIdx
  match bucket.metaWord.findFreeSlot with
  | none => some none
  | some free => do
      let (data, pool) ← storeEntry hr entry.keyBytes entry.valBytes (bucket.slots free) self.slabPool
      some (some { self with
        buckets := Function.update self.buckets newIdx (bucket.place free hr.h2 data)
        slabPool := pool
        epochs := Function.update self.epochs (newIdx * 4 + free.val) entry.slotTtl
        content := Function.update self.content newIdx
          (Function.update (self.content newIdx) free (some (entry.keyBytes, entry.valBytes))) })

def insertAll (self : Layout) : List EntryData → Option (Option Layout)
  | [] => some (some self)
  | entry :: rest =>
      match self.insertEntry config entry with
      | none => none
      | some none => some none
      | some (some next) => next.insertAll rest

/-- One pass of the retry loop: the new layout and its entry count. A size that cannot be
allocated is a panic. -/
def rehash (self : Layout) (newActual : Nat) : Option (Option (Layout × Nat)) := do
  let entries ← self.collect (places self.numBuckets)
  if SyncMap.maxBuckets < newActual then none
  else
    match ← (fresh newActual).insertAll config entries with
    | none => some none
    | some rebuilt => some (some (rebuilt, entries.length))

end Layout

end PulseMap
