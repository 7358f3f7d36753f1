import PulseMap.Sync.Conduct

/-!
The lock operations of the calls one by one. In the programs of the calls a section under
the slab or the epochs mutex is a single action; here it is entered, done and left, and the
sections that a resize takes under its write lock are entered and left as well. The calls
are the same programs with their sections taken apart.
-/

namespace PulseMap

namespace Lock

/-- The order of the locks: map, bucket, slab, epochs. -/
def rank : Lock → Nat
  | shared => 0
  | exclusive => 0
  | bucket _ => 1
  | slab _ => 2
  | epochs => 3

/-- A thread that holds the first lock keeps others from taking the second. -/
def Blocks : Lock → Lock → Prop
  | shared, exclusive => True
  | exclusive, shared => True
  | exclusive, exclusive => True
  | bucket held, bucket wanted => held = wanted
  | slab _, slab _ => True
  | epochs, epochs => True
  | _, _ => False

theorem Blocks.same_rank {held wanted : Lock} (blocks : held.Blocks wanted) :
    held.rank = wanted.rank := by
  cases held <;> cases wanted <;> first | rfl | exact blocks.elim

end Lock

/-- The mutexes that are taken for one section. -/
inductive Mutex where
  | slab
  | epochs

def Mutex.lock : Mutex → Lock
  | slab => .slab false
  | epochs => .epochs

namespace SyncAction

def mutex : SyncAction → Option Mutex
  | matchesKey false _ _ _ => some .slab
  | slabKeyIs _ _ => some .slab
  | slabValue false _ => some .slab
  | slabFree _ _ _ => some .slab
  | slabAlloc _ _ _ _ => some .slab
  | loadStamp _ _ => some .epochs
  | storeStamp _ _ _ => some .epochs
  | _ => none

def acquires : SyncAction → Option Lock
  | readLock => some .shared
  | writeLock => some .exclusive
  | lockBucket bucketIdx => some (.bucket bucketIdx)
  | slabLock => some (.slab true)
  | _ => none

def releases : SyncAction → Option Lock
  | readUnlock => some .shared
  | writeUnlock => some .exclusive
  | poison => some .exclusive
  | unlockBucket bucketIdx => some (.bucket bucketIdx)
  | slabUnlock => some (.slab true)
  | _ => none

def isRehash : SyncAction → Bool
  | rehash _ => true
  | _ => false

end SyncAction

/-- The map with the holders of its two mutexes, as far as single sections take them. -/
structure LockedMap where
  map : SyncMap
  inSlab : Option Nat
  inEpochs : Option Nat

inductive LockAction where
  | enter (mutex : Mutex)
  | leave (mutex : Mutex)
  | act (action : SyncAction)
  /-- The number of Full slots that a resize has to collect. -/
  | fullSlots

abbrev LockAction.Response : LockAction → Type
  | act action => action.Response
  | fullSlots => Nat
  | _ => Unit

namespace LockedMap

def perform (config : SyncConfig) (thread : Nat) (action : LockAction) (self : LockedMap) :
    Option (action.Response × LockedMap) :=
  match action with
  | .enter .slab =>
      if self.inSlab = none ∧ self.map.slabHolder = none then
        some ((), { self with inSlab := some thread })
      else none
  | .enter .epochs =>
      if self.inEpochs = none then some ((), { self with inEpochs := some thread }) else none
  | .leave .slab => some ((), { self with inSlab := none })
  | .leave .epochs => some ((), { self with inEpochs := none })
  | .act action =>
      if action.acquires = some (.slab true) ∧ self.inSlab ≠ none then none
      else (self.map.perform config thread action).map fun (response, map) =>
        (response, { self with map := map })
  | .fullSlots =>
      let layout := self.map.layout
      some (((Layout.places layout.numBuckets).filter fun (bucketIdx, slot) =>
        (layout.buckets bucketIdx).metaWord.getState slot = .full).length, self)

def Holds (self : LockedMap) (thread : Nat) : Lock → Prop
  | .shared => thread ∈ self.map.readers
  | .exclusive => self.map.writer = some thread
  | .bucket bucketIdx => self.map.locks bucketIdx = some thread
  | .slab true => self.map.slabHolder = some thread
  | .slab false => self.inSlab = some thread
  | .epochs => self.inEpochs = some thread

end LockedMap

def lockMachine (config : SyncConfig) : Machine where
  Shared := LockedMap
  Action := LockAction
  Response := LockAction.Response
  perform := LockedMap.perform config

abbrev LockProgram (config : SyncConfig) := Program (lockMachine config)

namespace LockProgram

variable {config : SyncConfig} {Result : Type}

def atomic (action : LockAction) : LockProgram config action.Response := .act action .done

/-- A section under a mutex that leaves the map alone. -/
def visit (mutex : Mutex) : LockProgram config Unit := do
  atomic (.enter mutex)
  atomic (.leave mutex)

def visits (mutex : Mutex) : Nat → LockProgram config Unit
  | 0 => pure ()
  | count + 1 => do
      visit mutex
      visits mutex count

/-- What precedes an action: its mutex is locked; a resize clones the stamps and reads
each Full slot in a slab section of its own, once for all passes of its retry loop. -/
def before (collected : Bool) (action : SyncAction) : LockProgram config Unit :=
  match action.mutex with
  | some mutex => atomic (.enter mutex)
  | none =>
      if action.isRehash ∧ collected = false then do
        visit .epochs
        let count ← atomic .fullSlots
        visits .slab count
      else pure ()

/-- What follows an action: its mutex is unlocked; a successful resize stores the stamps. -/
def after (action : SyncAction) (response : action.Response) : LockProgram config Unit :=
  match action.mutex with
  | some mutex => atomic (.leave mutex)
  | none =>
      match action, response with
      | .rehash _, some (some _) => visit .epochs
      | _, _ => pure ()

end LockProgram

def SyncProgram.expand {config : SyncConfig} {Result : Type} (collected : Bool) :
    SyncProgram config Result → LockProgram config Result
  | .done result => .done result
  | .panic => .panic
  | .act action next =>
      LockProgram.before collected action >>= fun _ =>
        LockProgram.atomic (.act action) >>= fun response =>
          LockProgram.after action response >>= fun _ =>
            SyncProgram.expand (collected || SyncAction.isRehash action) (next response)

namespace SyncProgram

variable {config : SyncConfig}

def numBuckets : SyncProgram config Nat := do
  readInner
  let (actual, _) ← atomic .readLayout
  atomic .readUnlock
  pure actual

/-- `load_factor()`: the two numbers whose quotient it returns. -/
def loadFactor : SyncProgram config (Nat × Nat) := do
  readInner
  let (actual, _) ← atomic .readLayout
  atomic .readUnlock
  let len ← atomic .loadCount
  pure (len, actual * 4)

end SyncProgram

/-- The calls of the map and its two other readers of the layout; `contains_key` is `peek`. -/
inductive LockCall where
  | call (request : SyncCall)
  | numBuckets
  | loadFactor

namespace LockCall

variable (config : SyncConfig)

def body : LockCall → SyncProgram config Unit
  | call request => request.program config
  | numBuckets => do
      let _ ← SyncProgram.numBuckets
      pure ()
  | loadFactor => do
      let _ ← SyncProgram.loadFactor
      pure ()

def program (request : LockCall) : LockProgram config Unit := (request.body config).expand false

end LockCall

def lockRun (config : SyncConfig) (numBuckets : Nat) (moves : List (Move LockCall)) :
    System (lockMachine config) :=
  System.run (LockCall.program config)
    { shared := ⟨SyncMap.new numBuckets, none, none⟩, programs := fun _ => .done () } moves

end PulseMap
