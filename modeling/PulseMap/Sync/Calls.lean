import PulseMap.Sync.Map

/-!
`sync.rs`: the calls of the concurrent map as programs of atomic actions, statement by
statement. A guard that the source drops at the end of a scope is released by the last
actions of the program here.
-/

namespace PulseMap

abbrev SyncProgram (config : SyncConfig) := Program (syncMachine config)

namespace SyncProgram

variable {config : SyncConfig}

def atomic (action : SyncAction) : SyncProgram config action.Response := .act action .done

theorem exec_atomic {Result : Type} {thread : Nat} {map after : SyncMap} {action : SyncAction}
    {response : action.Response} (next : action.Response → SyncProgram config Result)
    (performed : map.perform config thread action = some (response, after)) :
    (atomic action >>= next).exec thread map = (next response).exec thread after :=
  Program.exec_act performed

theorem exec_part {Result Next : Type} {thread : Nat} {map after : SyncMap} {result : Result}
    {program : SyncProgram config Result} (next : Result → SyncProgram config Next)
    (ran : program.exec thread map = some (result, after)) :
    (program >>= next).exec thread map = (next result).exec thread after :=
  Program.exec_then ran

/-- A part of a call that never ends keeps the call from ending. -/
theorem exec_part_none {Result Next : Type} {thread : Nat} {map : SyncMap}
    {program : SyncProgram config Result} (next : Result → SyncProgram config Next)
    (ran : program.exec thread map = none) : (program >>= next).exec thread map = none :=
  Program.exec_then_none ran

/-- An index out of range panics. -/
def orPanic {Result : Type} : Option Result → SyncProgram config Result
  | none => .panic
  | some result => .done result

/-! ### The access buffer -/

/-- The atomic accesses of the thread's buffer call until it returns; five always do. -/
def completeCall : Nat → BufferCall 64 → SyncProgram config (BufferCall 64)
  | 0, call => pure call
  | fuel + 1, call =>
      if call.returned then pure call
      else do
        let next ← atomic .bufferStep
        completeCall fuel next

/-- `access_buffer.push(bucket_idx, slot_idx)`, its answer ignored. -/
def push (bucketIdx : Nat) (slot : Fin 4) : SyncProgram config Unit := do
  let call ← atomic (.startPush (BitVec.ofNat 64 bucketIdx, BitVec.ofNat 8 slot.val))
  let _ ← completeCall 5 call
  pure ()

def pop : SyncProgram config (Option (Access 64)) := do
  let call ← atomic .startPop
  match ← completeCall 5 call with
  | .popped event => pure event
  | _ => pure none

/-- `clear()`: a drain of at most the buffer's length that ignores the events. -/
def clear : Nat → SyncProgram config Unit
  | 0 => pure ()
  | budget + 1 => do
      match ← pop with
      | none => pure ()
      | some _ => clear budget

/-! ### Locks -/

/-- `self.inner.read().unwrap()`: on a poisoned lock the guard inside the error is dropped. -/
def readInner : SyncProgram config Unit := do
  atomic .readLock
  if ← atomic .isPoisoned then do
    atomic .readUnlock
    .panic
  else pure ()

/-- A panic under the write lock, whose guard poisons the lock on its way out. -/
def unwindWrite {Result : Type} : SyncProgram config Result := do
  atomic .poison
  .panic

def writeInner : SyncProgram config Unit := do
  atomic .writeLock
  if ← atomic .isPoisoned then unwindWrite else pure ()

def lockBucket (bucketIdx : Nat) : SyncProgram config Unit := do
  if ← atomic (.lockBucket bucketIdx) then pure () else .panic

def drainBatch : Nat := 64

/-- The drain of an insert: each event takes the lock of its own bucket. -/
def drain : Nat → SyncProgram config Unit
  | 0 => pure ()
  | budget + 1 => do
      match ← pop with
      | none => pure ()
      | some event => do
          let target := event.1.toNat
          lockBucket target
          atomic (.onAccess target (Fin.ofNat 4 event.2.toNat))
          atomic (.unlockBucket target)
          drain budget

/-- The frame of `insert`, `get`, `peek` and `remove`: the read lock, then the lock of the
key's bucket, both released in reverse order. `before` runs between the two. -/
def withBucket {Result : Type} (h1 : Word) (before : SyncProgram config Unit)
    (body : Nat → Bucket → SyncProgram config Result) : SyncProgram config Result := do
  readInner
  let (_, mask) ← atomic .readLayout
  let idx := config.bucketIndex h1 mask
  before
  lockBucket idx
  let bucket ← atomic (.readBucket idx)
  let result ← body idx bucket
  atomic (.unlockBucket idx)
  atomic .readUnlock
  pure result

/-! ### Epochs -/

def effectiveTtl (entry : SlotTTL) : SyncProgram config Word :=
  if entry.ttl = 0#64 then atomic .loadDefaultTtl else pure entry.ttl

def isExpired (bucketIdx : Nat) (slot : Fin 4) : SyncProgram config Bool := do
  let entry ← atomic (.loadStamp bucketIdx slot)
  let effectiveTtl ← effectiveTtl entry
  if effectiveTtl = 0#64 ∨ effectiveTtl = BitVec.allOnes 64 then pure false
  else do
    let epoch ← atomic .loadEpoch
    pure (decide (effectiveTtl < epoch - entry.epoch))

def stampEpoch (bucketIdx : Nat) (slot : Fin 4) (ttl : Word) : SyncProgram config Unit := do
  let epoch ← atomic .loadEpoch
  atomic (.storeStamp bucketIdx slot ⟨epoch, ttl⟩)

/-! ### Slots -/

/-- The candidate loop of `insert` and `remove`: one slab section for each comparison. -/
def findSlot (bucket : Bucket) (key : Bytes) (hr : HashResult) :
    List (Fin 4) → SyncProgram config (Option (Fin 4))
  | [] => pure none
  | slot :: rest => do
      let answer ← atomic (.matchesKey false (bucket.slots slot) key hr)
      if ← orPanic answer then pure (some slot) else findSlot bucket key hr rest

/-- The comparison of `get`: only equal fingerprints reach the slab. -/
def getMatches (data : Slot) (key : Bytes) (hr : HashResult) : SyncProgram config Bool :=
  if data.getMode = 0#8 then pure (data.inlineKey == key)
  else if data.getExtFpHi ≠ hr.extFpHi then pure false
  else if data.getExtFp ≠ hr.extFp then pure false
  else do
    let answer ← atomic (.slabKeyIs data.slabIdx key)
    orPanic answer

def getSlot (bucket : Bucket) (key : Bytes) (hr : HashResult) :
    List (Fin 4) → SyncProgram config (Option (Fin 4))
  | [] => pure none
  | slot :: rest => do
      if ← getMatches (bucket.slots slot) key hr then pure (some slot)
      else getSlot bucket key hr rest

/-- `if slot.get_mode() == 1 { slab_pool.lock().free(slot.slab_idx()) }`. -/
def releaseSlab (bucketIdx : Nat) (slot : Fin 4) (data : Slot) : SyncProgram config Unit :=
  if data.getMode = 1#8 then atomic (.slabFree bucketIdx slot data.slabIdx) else pure ()

/-- The bytes to write into the slot: the pair itself, or the index of its slab entry. -/
def storePair (bucketIdx : Nat) (slot : Fin 4) (data : Slot) (key value : Bytes) (hr : HashResult) :
    SyncProgram config Slot :=
  if Slot.FitsInline key value then pure (data.setInline key value)
  else do
    let answer ← atomic (.slabAlloc bucketIdx slot key value)
    let idx ← orPanic answer
    pure (data.setSlab hr.extFpHi hr.extFp idx)

/-! ### The calls -/

/-- The retry loop; 64 doublings lead to a layout that cannot be allocated. -/
def rehashLoop : Nat → Nat → SyncProgram config Unit
  | 0, _ => unwindWrite
  | fuel + 1, newActual => do
      match ← atomic (.rehash newActual) with
      | none => unwindWrite
      | some none => rehashLoop fuel (newActual * 2)
      | some (some count) => atomic (.storeCount count)

/-- A layout that is large enough stays; else the buffer is cleared and the layout rebuilt. -/
def grow (newActual numBuckets : Nat) : SyncProgram config Unit :=
  if newActual ≤ numBuckets then pure ()
  else do
    clear 4096
    rehashLoop 64 newActual

/-- `new_num_buckets.max(1).next_power_of_two()`, which wraps to zero above `2 ^ 63`. -/
def roundedSize (newNumBuckets : Nat) : Nat := nextPowerOfTwo (max newNumBuckets 1) % 2 ^ 64

theorem rounded_size_eq {newNumBuckets : Nat} (small : newNumBuckets ≤ 2 ^ 63) :
    roundedSize newNumBuckets = nextPowerOfTwo (max newNumBuckets 1) := by
  obtain ⟨bits, bounded, rounded⟩ := next_power_bits small
  rw [roundedSize, rounded]
  exact Nat.mod_eq_of_lt (Nat.pow_lt_pow_right (by decide) (by omega))

theorem rounded_size_cases (newNumBuckets : Nat) :
    roundedSize newNumBuckets = 0 ∨ ∃ many, roundedSize newNumBuckets = 2 ^ many := by
  unfold roundedSize nextPowerOfTwo
  rcases lt_or_ge (Nat.clog 2 (max newNumBuckets 1)) 64 with few | many
  · exact .inr ⟨_, Nat.mod_eq_of_lt (Nat.pow_lt_pow_right (by decide) few)⟩
  · exact .inl (Nat.mod_eq_zero_of_dvd (Nat.pow_dvd_pow 2 many))

theorem lt_of_max_lt_rounded {newNumBuckets : Nat}
    (tooLarge : SyncMap.maxBuckets < roundedSize newNumBuckets) : SyncMap.maxBuckets < newNumBuckets := by
  by_contra possible
  have small : newNumBuckets ≤ 2 ^ 56 := Nat.le_of_not_lt possible
  obtain ⟨bits, bounded, rounded⟩ := next_power_bits small
  rw [rounded_size_eq (small.trans (by decide)), rounded] at tooLarge
  exact absurd (Nat.pow_le_pow_right (by decide) bounded) (Nat.not_le.mpr tooLarge)

def resize (newNumBuckets : Nat) : SyncProgram config Unit := do
  let newActual := roundedSize newNumBuckets
  writeInner
  let (numBuckets, _) ← atomic .readLayout
  grow newActual numBuckets
  atomic (.commit .resize)
  atomic .writeUnlock

/-- The load test at the head of an insert, with the quotient compared exactly. -/
def autoResize : SyncProgram config Unit :=
  if config.autoResize then do
    readInner
    let (numBuckets, _) ← atomic .readLayout
    let len ← atomic .loadCount
    atomic .readUnlock
    if 3 * (numBuckets * 4) < 4 * len then resize (numBuckets * 2) else pure ()
  else pure ()

/-- Step 1 of an insert: the key was found in `slot`. -/
def updateInPlace (bucketIdx : Nat) (bucket : Bucket) (slot : Fin 4) (key value : Bytes)
    (ttl : Word) : SyncProgram config Unit := do
  let hr := config.hash key
  releaseSlab bucketIdx slot (bucket.slots slot)
  let data ← storePair bucketIdx slot (bucket.slots slot) key value hr
  atomic (.updateSlot bucketIdx slot data key value)
  stampEpoch bucketIdx slot ttl

def placeInto (bucketIdx : Nat) (bucket : Bucket) (slot : Fin 4) (isEviction : Bool)
    (key value : Bytes) (ttl : Word) : SyncProgram config Unit := do
  let hr := config.hash key
  let data ← storePair bucketIdx slot (bucket.slots slot) key value hr
  atomic (.placeSlot bucketIdx slot hr.h2 data key value)
  stampEpoch bucketIdx slot ttl
  if isEviction then pure () else atomic .addCount

def insertBody (key value : Bytes) (ttl : Word) (bucketIdx : Nat) (bucket : Bucket) :
    SyncProgram config Unit := do
  let hr := config.hash key
  match ← findSlot bucket key hr (bucket.candidates hr) with
  | some slot => updateInPlace bucketIdx bucket slot key value ttl
  | none =>
      match bucket.metaWord.findFreeSlot with
      | some free => placeInto bucketIdx bucket free false key value ttl
      | none =>
          match bucket.metaWord.findEvictTarget with
          | some evict => do
              releaseSlab bucketIdx evict (bucket.slots evict)
              atomic .addEvictionCount
              placeInto bucketIdx bucket evict true key value ttl
          | none => pure ()

def insertInternal (key value : Bytes) (ttl : Word) : SyncProgram config SyncResult := do
  autoResize
  atomic .addEpoch
  withBucket (config.hash key).h1 (drain drainBatch) (insertBody key value ttl)
  pure .done

/-- The value of a hit; an inline one is read without the slab. -/
def getValue (data : Slot) : SyncProgram config (Option Bytes) :=
  if data.getMode = 0#8 then pure (some data.inlineValue)
  else do
    let answer ← atomic (.slabValue false data)
    let value ← orPanic answer
    pure (some value)

def getFound (key : Bytes) (bucketIdx : Nat) (bucket : Bucket) :
    SyncProgram config (Option Bytes) := do
  let hr := config.hash key
  match ← getSlot bucket key hr (bucket.candidates hr) with
  | none => pure none
  | some slot =>
      if ← isExpired bucketIdx slot then pure none
      else do
        push bucketIdx slot
        getValue (bucket.slots slot)

def getBody (key : Bytes) (bucketIdx : Nat) (bucket : Bucket) :
    SyncProgram config (Option Bytes) := do
  let found ← getFound key bucketIdx bucket
  atomic (.commit (.read key found))
  pure found

def get (key : Bytes) : SyncProgram config SyncResult := do
  let found ← withBucket (config.hash key).h1 (pure ()) (getBody key)
  pure (.value found)

/-- The candidate loop of `peek`, which keeps the slab mutex through the expiry test. -/
def peekSlots (key : Bytes) (hr : HashResult) (bucketIdx : Nat) (bucket : Bucket) :
    List (Fin 4) → SyncProgram config (Option Bytes)
  | [] => pure none
  | slot :: rest => do
      atomic .slabLock
      let answer ← atomic (.matchesKey true (bucket.slots slot) key hr)
      if ← orPanic answer then
        if ← isExpired bucketIdx slot then do
          atomic .slabUnlock
          pure none
        else do
          let answer ← atomic (.slabValue true (bucket.slots slot))
          let value ← orPanic answer
          atomic .slabUnlock
          pure (some value)
      else do
        atomic .slabUnlock
        peekSlots key hr bucketIdx bucket rest

def peekBody (key : Bytes) (bucketIdx : Nat) (bucket : Bucket) :
    SyncProgram config (Option Bytes) := do
  let hr := config.hash key
  let found ← peekSlots key hr bucketIdx bucket (bucket.candidates hr)
  atomic (.commit (.read key found))
  pure found

def peek (key : Bytes) : SyncProgram config SyncResult := do
  let found ← withBucket (config.hash key).h1 (pure ()) (peekBody key)
  pure (.value found)

def removeBody (key : Bytes) (bucketIdx : Nat) (bucket : Bucket) : SyncProgram config Bool := do
  let hr := config.hash key
  match ← findSlot bucket key hr (bucket.candidates hr) with
  | none => do
      atomic (.commit (.remove key false))
      pure false
  | some slot => do
      releaseSlab bucketIdx slot (bucket.slots slot)
      atomic (.clearSlot bucketIdx slot key)
      atomic .subCount
      pure true

def remove (key : Bytes) : SyncProgram config SyncResult := do
  let found ← withBucket (config.hash key).h1 (pure ()) (removeBody key)
  pure (.removed found)

def capacity : SyncProgram config SyncResult := do
  readInner
  let (numBuckets, _) ← atomic .readLayout
  atomic .readUnlock
  pure (.size (numBuckets * 4))

end SyncProgram

namespace SyncCall

variable (config : SyncConfig)

def body : SyncCall → SyncProgram config SyncResult
  | insert key value ttl => SyncProgram.insertInternal key value ttl
  | get key => SyncProgram.get key
  | peek key => SyncProgram.peek key
  | remove key => SyncProgram.remove key
  | resize newNumBuckets => do
      SyncProgram.resize newNumBuckets
      pure .done
  | setTtl ttl => do
      SyncProgram.atomic (.storeDefaultTtl ttl)
      pure .done
  | capacity => SyncProgram.capacity

/-- A whole call: its number is taken first and its result noted last. -/
def program (call : SyncCall) : SyncProgram config Unit := do
  SyncProgram.atomic (.begin call)
  let result ← call.body config
  SyncProgram.atomic (.finish call result)

def Sized : SyncCall → Prop
  | insert key value _ => key.length + value.length < 2 ^ 32
  | _ => True

end SyncCall

def syncSystem (config : SyncConfig) (numBuckets : Nat) : System (syncMachine config) where
  shared := SyncMap.new numBuckets
  programs := fun _ => .done ()

end PulseMap
