import PulseMap.Engine.Ring
import PulseMap.Library.Program
import PulseMap.Sync.Rehash

/-!
`sync.rs`: the shared state of the concurrent map and the atomic actions of its calls.
An action is one lock acquisition or release, one section under the slab or the epochs
mutex, one access of an atomic counter or of the access buffer, or one access of a
bucket whose spinlock the thread holds. A history of what the calls did is kept beside
the map: it is written by the actions and read by none of them.
-/

namespace PulseMap

/-- The calls of the map on encoded keys and values; `insert` passes the ttl `0`. -/
inductive SyncCall where
  | insert (key value : Bytes) (ttl : Word)
  | get (key : Bytes)
  | peek (key : Bytes)
  | remove (key : Bytes)
  | resize (newNumBuckets : Nat)
  | setTtl (ttl : Word)
  | capacity

inductive SyncResult where
  | done
  | value (found : Option Bytes)
  | removed (found : Bool)
  | size (slots : Nat)
deriving DecidableEq

/-- What a call did in its critical section. An insert names the key it displaced. -/
inductive SyncEvent where
  | insert (key value : Bytes) (victim : Option Bytes)
  | read (key : Bytes) (found : Option Bytes)
  | remove (key : Bytes) (found : Bool)
  | resize
deriving DecidableEq

structure HistoryEntry where
  thread : Nat
  call : Nat
  event : SyncEvent
deriving DecidableEq

structure StartedCall where
  thread : Nat
  call : Nat
  request : SyncCall

structure ReturnedCall where
  thread : Nat
  call : Nat
  request : SyncCall
  result : SyncResult

/-- `ConcurrentPulseMap`. A lock is the thread that holds it. The fields from `transit`
on are history. -/
structure SyncMap where
  layout : Layout
  readers : Finset Nat
  writer : Option Nat
  /-- A thread has panicked under the write lock. -/
  poisoned : Bool
  locks : Nat → Option Nat
  slabHolder : Option Nat
  count : Nat
  evictionCount : Nat
  currentEpoch : Word
  defaultTtl : Word
  accessBuffer : RingState 64
  /-- A slot of a locked bucket whose slab index was freed or newly allocated, but which
  has not been rewritten yet, with the index now held for it. -/
  transit : Nat → Option (Fin 4 × Option Nat)
  history : List HistoryEntry
  calls : Nat → Nat
  /-- The event committed by the current call of each thread. -/
  outcome : Nat → Option SyncEvent
  started : List StartedCall
  returned : List ReturnedCall
  /-- The number of layouts installed by `resize`, at each push and at each delivery. -/
  generation : Nat
  pushedIn : List Nat
  deliveredIn : List Nat

inductive SyncAction where
  | begin (request : SyncCall)
  | finish (request : SyncCall) (result : SyncResult)
  | readLock
  | readUnlock
  | writeLock
  | writeUnlock
  | isPoisoned
  | poison
  | readLayout
  | lockBucket (bucketIdx : Nat)
  | unlockBucket (bucketIdx : Nat)
  | readBucket (bucketIdx : Nat)
  | onAccess (bucketIdx : Nat) (slot : Fin 4)
  | slabLock
  | slabUnlock
  | matchesKey (guarded : Bool) (data : Slot) (key : Bytes) (hr : HashResult)
  | slabKeyIs (idx : Nat) (key : Bytes)
  | slabValue (guarded : Bool) (data : Slot)
  | slabFree (bucketIdx : Nat) (slot : Fin 4) (idx : Nat)
  | slabAlloc (bucketIdx : Nat) (slot : Fin 4) (key value : Bytes)
  | updateSlot (bucketIdx : Nat) (slot : Fin 4) (data : Slot) (key value : Bytes)
  | placeSlot (bucketIdx : Nat) (slot : Fin 4) (h2 : Byte) (data : Slot) (key value : Bytes)
  | clearSlot (bucketIdx : Nat) (slot : Fin 4) (key : Bytes)
  | commit (event : SyncEvent)
  | loadStamp (bucketIdx : Nat) (slot : Fin 4)
  | storeStamp (bucketIdx : Nat) (slot : Fin 4) (stamp : SlotTTL)
  | loadCount
  | addCount
  | subCount
  | storeCount (count : Nat)
  | addEvictionCount
  | addEpoch
  | loadEpoch
  | loadDefaultTtl
  | storeDefaultTtl (ttl : Word)
  | startPush (event : Access 64)
  | startPop
  | bufferStep
  | rehash (newActual : Nat)

abbrev SyncAction.Response : SyncAction → Type
  | isPoisoned => Bool
  | readLayout => Nat × Nat
  | lockBucket _ => Bool
  | readBucket _ => Bucket
  | matchesKey _ _ _ _ => Option Bool
  | slabKeyIs _ _ => Option Bool
  | slabValue _ _ => Option Bytes
  | slabAlloc _ _ _ _ => Option Nat
  | loadStamp _ _ => SlotTTL
  | loadCount => Nat
  | loadEpoch => Word
  | loadDefaultTtl => Word
  | startPush _ => BufferCall 64
  | startPop => BufferCall 64
  | bufferStep => BufferCall 64
  | rehash _ => Option (Option Nat)
  | _ => Unit

namespace SyncMap

/-- `with_config`, which panics above `maxBuckets`. -/
def new (numBuckets : Nat) : SyncMap :=
  { layout := Layout.new numBuckets
    readers := ∅
    writer := none
    poisoned := false
    locks := fun _ => none
    slabHolder := none
    count := 0
    evictionCount := 0
    currentEpoch := 0
    defaultTtl := 0
    accessBuffer := RingState.new 4096
    transit := fun _ => none
    history := []
    calls := fun _ => 0
    outcome := fun _ => none
    started := []
    returned := []
    generation := 0
    pushedIn := []
    deliveredIn := [] }

def record (self : SyncMap) (thread : Nat) (event : SyncEvent) : SyncMap :=
  { self with
    history := self.history ++ [⟨thread, self.calls thread, event⟩]
    outcome := Function.update self.outcome thread (some event) }

/-- A slot of the thread's bucket is rewritten and the event of its call is recorded. -/
def writeSlot (self : SyncMap) (thread bucketIdx : Nat) (slot : Fin 4) (written : Bucket)
    (entry : Option (Bytes × Bytes)) (event : SyncEvent) : SyncMap :=
  { self with
    layout := self.layout.rewrite bucketIdx slot written entry
    transit := Function.update self.transit bucketIdx none
    history := self.history ++ [⟨thread, self.calls thread, event⟩]
    outcome := Function.update self.outcome thread (some event) }

/-- A section under the slab mutex: it waits while another thread holds the mutex. A
guarded one belongs to the section that the thread has opened itself. -/
def slabOpen (self : SyncMap) (thread : Nat) (guarded : Bool) : Bool :=
  self.slabHolder = if guarded then some thread else none

def setBucket (self : SyncMap) (bucketIdx : Nat) (bucket : Bucket) : SyncMap :=
  { self with
    layout := { self.layout with
      buckets := Function.update self.layout.buckets bucketIdx bucket } }

def setTransit (self : SyncMap) (bucketIdx : Nat) (held : Option (Fin 4 × Option Nat)) : SyncMap :=
  { self with transit := Function.update self.transit bucketIdx held }

def setPool (self : SyncMap) (pool : SlabPool) : SyncMap :=
  { self with layout := { self.layout with slabPool := pool } }

/-- One action on the access buffer; new reservations and deliveries are marked with
the current layout. -/
def bufferAct (self : SyncMap) (action : RingAction 64) : SyncMap :=
  let next := self.accessBuffer.act action
  let mark (before after : Nat) : List Nat := List.replicate (after - before) self.generation
  { self with
    accessBuffer := next
    pushedIn := self.pushedIn ++
      mark self.accessBuffer.ring.accepted.length next.ring.accepted.length
    deliveredIn := self.deliveredIn ++
      mark self.accessBuffer.ring.delivered.length next.ring.delivered.length }

variable (config : SyncConfig)

/-- What each action does. `none` is waiting; a response `none` or `false` is an index out
of range or a layout that is too large, on which the caller panics. -/
def perform (thread : Nat) (action : SyncAction) (self : SyncMap) :
    Option (action.Response × SyncMap) :=
  match action with
  | .begin request => some ((), { self with
      calls := Function.update self.calls thread (self.calls thread + 1)
      outcome := Function.update self.outcome thread none
      started := self.started ++ [⟨thread, self.calls thread + 1, request⟩] })
  | .finish request result => some ((), { self with
      returned := self.returned ++ [⟨thread, self.calls thread, request, result⟩] })
  | .readLock =>
      if self.writer = none then some ((), { self with readers := insert thread self.readers })
      else none
  | .readUnlock => some ((), { self with readers := self.readers.erase thread })
  | .writeLock =>
      if self.writer = none ∧ self.readers = ∅ then some ((), { self with writer := some thread })
      else none
  | .writeUnlock => some ((), { self with writer := none })
  | .isPoisoned => some (self.poisoned, self)
  | .poison => some ((), { self with writer := none, poisoned := true })
  | .readLayout => some ((self.layout.numBuckets, self.layout.bucketMask), self)
  | .lockBucket bucketIdx =>
      if self.layout.numBuckets ≤ bucketIdx then some (false, self)
      else if self.locks bucketIdx = none then
        some (true, { self with locks := Function.update self.locks bucketIdx (some thread) })
      else none
  | .unlockBucket bucketIdx =>
      some ((), { self with locks := Function.update self.locks bucketIdx none })
  | .readBucket bucketIdx => some (self.layout.buckets bucketIdx, self)
  | .onAccess bucketIdx slot =>
      let bucket := self.layout.buckets bucketIdx
      some ((), self.setBucket bucketIdx { bucket with metaWord := bucket.metaWord.onAccess slot })
  | .slabLock =>
      if self.slabHolder = none then some ((), { self with slabHolder := some thread }) else none
  | .slabUnlock => some ((), { self with slabHolder := none })
  | .matchesKey guarded data key hr =>
      if self.slabOpen thread guarded then some (data.matchesKey key hr self.layout.slabPool, self)
      else none
  | .slabKeyIs idx key =>
      if self.slabOpen thread false then
        some ((self.layout.slabPool.get idx).map (·.key == key), self)
      else none
  | .slabValue guarded data =>
      if self.slabOpen thread guarded then some (data.getValue self.layout.slabPool, self) else none
  | .slabFree bucketIdx slot idx =>
      if self.slabOpen thread false then
        some ((), (self.setPool (self.layout.slabPool.free idx)).setTransit bucketIdx
          (some (slot, none)))
      else none
  | .slabAlloc bucketIdx slot key value =>
      if self.slabOpen thread false then
        match self.layout.slabPool.alloc key value with
        | none => some (none, self)
        | some (idx, pool) =>
            some (some idx, (self.setPool pool).setTransit bucketIdx (some (slot, some idx)))
      else none
  | .updateSlot bucketIdx slot data key value =>
      let written := (self.layout.buckets bucketIdx).update slot data
      some ((), self.writeSlot thread bucketIdx slot written (some (key, value))
        (.insert key value none))
  | .placeSlot bucketIdx slot h2 data key value =>
      let written := (self.layout.buckets bucketIdx).place slot h2 data
      let victim := (self.layout.content bucketIdx slot).map Prod.fst
      some ((), self.writeSlot thread bucketIdx slot written (some (key, value))
        (.insert key value victim))
  | .clearSlot bucketIdx slot key =>
      let written := (self.layout.buckets bucketIdx).tombstone slot
      some ((), self.writeSlot thread bucketIdx slot written none (.remove key true))
  | .commit event => some ((), self.record thread event)
  | .loadStamp bucketIdx slot => some (self.layout.epochs (bucketIdx * 4 + slot.val), self)
  | .storeStamp bucketIdx slot stamp => some ((), { self with
      layout := { self.layout with
        epochs := Function.update self.layout.epochs (bucketIdx * 4 + slot.val) stamp } })
  | .loadCount => some (self.count, self)
  | .addCount => some ((), { self with count := self.count + 1 })
  | .subCount => some ((), { self with count := self.count - 1 })
  | .storeCount count => some ((), { self with count := count })
  | .addEvictionCount => some ((), { self with evictionCount := self.evictionCount + 1 })
  | .addEpoch => some ((), { self with currentEpoch := self.currentEpoch + 1 })
  | .loadEpoch => some (self.currentEpoch, self)
  | .loadDefaultTtl => some (self.defaultTtl, self)
  | .storeDefaultTtl ttl => some ((), { self with defaultTtl := ttl })
  | .startPush event =>
      let next := self.bufferAct (.push thread event)
      some ((next.accessBuffer.threads thread).call, next)
  | .startPop =>
      let next := self.bufferAct (.pop thread)
      some ((next.accessBuffer.threads thread).call, next)
  | .bufferStep =>
      let next := self.bufferAct (.step thread)
      some ((next.accessBuffer.threads thread).call, next)
  | .rehash newActual =>
      match self.layout.rehash config newActual with
      | none => some (none, self)
      | some none => some (some none, self)
      | some (some (rebuilt, count)) =>
          some (some (some count), { self with
            layout := rebuilt
            locks := fun _ => none
            generation := self.generation + 1 })

end SyncMap

def syncMachine (config : SyncConfig) : Machine where
  Shared := SyncMap
  Action := SyncAction
  Response := SyncAction.Response
  perform := SyncMap.perform config

end PulseMap
