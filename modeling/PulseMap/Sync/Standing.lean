import PulseMap.Library.Trace
import PulseMap.Sync.Calls

/-!
Where a thread stands inside its call: the locks it holds, the bucket as it read it, and
what it still owes after a write, the stamp of the slot and the change of the counter.
Every call of the map moves through its standings in the order the rules below allow,
whatever the other threads make its actions answer.
-/

namespace PulseMap

/-- A lock in the mode it is held in. The slab mutex is kept by `peek` through its expiry
test and taken for a single section everywhere else. -/
inductive Lock where
  | shared
  | exclusive
  | bucket (bucketIdx : Nat)
  | slab (kept : Bool)
  | epochs
deriving DecidableEq

/-- What a thread owes before it may leave its critical section. -/
inductive Duty where
  | clear
  /-- The eviction is counted and the victim still in its slot. -/
  | evicting
  /-- The slot is written; `fresh` if it was free before. -/
  | unstamped (slot : Fin 4) (fresh : Bool)
  | dated (slot : Fin 4) (fresh : Bool) (epoch : Word)
  | uncounted
  | overcounted
  /-- The layout is rebuilt and its entries are counted. -/
  | rebuilt (count : Nat)
deriving DecidableEq

inductive LoadTest where
  | untested
  | sized (numBuckets : Nat)
  | light
  | heavy (numBuckets : Nat)
  | eased (numBuckets : Nat)
deriving DecidableEq

namespace LoadTest

/-- The size that the resize of an overloaded map asks for. -/
def target (numBuckets : Nat) : Nat := SyncProgram.roundedSize (numBuckets * 2)

def Passed : LoadTest → Prop
  | light => True
  | eased _ => True
  | _ => False

def onSize (self : LoadTest) (numBuckets : Nat) : LoadTest :=
  match self with
  | untested => sized numBuckets
  | heavy seen => if target seen ≤ numBuckets then eased seen else heavy seen
  | other => other

def onCount (self : LoadTest) (len : Nat) : LoadTest :=
  match self with
  | sized numBuckets => if 3 * (numBuckets * 4) < 4 * len then heavy numBuckets else light
  | other => other

/-- Without the read lock the bucket count is of no use. -/
def onLeave : LoadTest → LoadTest
  | sized _ => untested
  | other => other

def onGrowth : LoadTest → LoadTest
  | heavy seen => eased seen
  | other => other

/-- The map that was found overloaded may be rebuilt with this size: the one found under
the write lock is still too small. -/
def Grows (self : LoadTest) (size newActual : Nat) : Prop :=
  ∃ seen, self = heavy seen ∧ size < target seen ∧ target seen ≤ newActual

theorem target_gt {numBuckets : Nat} (small : numBuckets ≤ 2 ^ 56) :
    2 * numBuckets ≤ target numBuckets ∧ numBuckets < target numBuckets := by
  have large : max (numBuckets * 2) 1 ≤ target numBuckets := by
    rw [target, SyncProgram.rounded_size_eq (by omega)]
    exact le_next_power_of_two _
  omega

end LoadTest

/-- `size` is the bucket count the thread has read since it took its last lock of the map;
`removed` says that the call has cleared a slot, `advanced` that it has moved the epoch,
`doomed` that it has met a poisoned lock or needs a layout that cannot be allocated. -/
structure Standing where
  call : Option SyncCall
  held : List Lock
  view : Option Bucket
  duty : Duty
  load : LoadTest
  size : Option Nat
  removed : Bool
  advanced : Bool
  doomed : Bool

namespace Standing

def outside : Standing := ⟨none, [], none, .clear, .untested, none, false, false, false⟩

def start (call : SyncCall) : Standing := { outside with call := some call }

def Final (self : Standing) : Prop := self.held = [] ∧ self.view = none ∧ self.duty = .clear

def Idle (self : Standing) : Prop := self.Final ∧ self.load = .untested ∧ self.removed = false

def entered (self : Standing) (lock : Lock) : Standing :=
  { self with held := [lock], size := none, doomed := false }

/-- Inside the critical section of a bucket, with no other lock. -/
def InBucket (self : Standing) (bucketIdx : Nat) : Prop := self.held = [.bucket bucketIdx, .shared]

/-- A bucket's state is only read; `peek` may keep the slab mutex meanwhile. -/
def Reads (self : Standing) (bucketIdx : Nat) : Prop :=
  self.InBucket bucketIdx ∨ self.held = [.slab true, .bucket bucketIdx, .shared]

def Sees (self : Standing) (slot : Fin 4) (full : Prop) : Prop :=
  ∃ bucket, self.view = some bucket ∧ (bucket.metaWord.getState slot = .full ↔ full)

def Inserts (self : Standing) (key value : Bytes) : Prop :=
  ∃ ttl, self.call = some (.insert key value ttl)

def Allows (config : SyncConfig) (self : Standing) : SyncAction → Prop
  | .begin _ => self.removed = false
  | .finish _ result => self.Final ∧ (self.removed = true ↔ result = .removed true)
  | .readLock => self.held = []
  | .readUnlock => self.held = [.shared]
  | .writeLock => self.held = []
  | .writeUnlock => self.held = [.exclusive] ∧ self.duty = .clear
  | .isPoisoned => self.held = [.shared] ∨ self.held = [.exclusive]
  | .poison => self.held = [.exclusive] ∧ self.duty = .clear ∧ self.doomed = true
  | .readLayout => self.held = [.shared] ∨ self.held = [.exclusive]
  | .lockBucket _ => self.held = [.shared] ∧ self.view = none ∧ self.duty = .clear
  | .unlockBucket bucketIdx => self.InBucket bucketIdx ∧ self.duty = .clear
  | .readBucket bucketIdx => self.InBucket bucketIdx ∧ self.duty = .clear
  | .onAccess bucketIdx _ => self.InBucket bucketIdx ∧ self.view = none
  | .slabLock => ∃ bucketIdx, self.InBucket bucketIdx
  | .slabUnlock => ∃ bucketIdx, self.held = [.slab true, .bucket bucketIdx, .shared]
  | .matchesKey true _ _ _ => ∃ bucketIdx, self.held = [.slab true, .bucket bucketIdx, .shared]
  | .matchesKey false _ _ _ => ∃ bucketIdx, self.InBucket bucketIdx
  | .slabKeyIs _ _ => ∃ bucketIdx, self.InBucket bucketIdx
  | .slabValue true _ => ∃ bucketIdx, self.held = [.slab true, .bucket bucketIdx, .shared]
  | .slabValue false _ => ∃ bucketIdx, self.InBucket bucketIdx
  | .slabFree bucketIdx _ _ => self.InBucket bucketIdx
  | .slabAlloc bucketIdx _ _ _ => self.InBucket bucketIdx
  | .updateSlot bucketIdx slot _ key value =>
      self.InBucket bucketIdx ∧ self.duty = .clear ∧ self.Sees slot True ∧ self.Inserts key value
  | .placeSlot bucketIdx slot _ _ key value =>
      self.InBucket bucketIdx ∧ self.Inserts key value ∧
        (self.duty = .clear ∧ self.Sees slot False ∨ self.duty = .evicting ∧ self.Sees slot True)
  | .clearSlot bucketIdx slot key =>
      self.InBucket bucketIdx ∧ self.duty = .clear ∧ self.Sees slot True ∧
        self.call = some (.remove key) ∧ self.removed = false
  | .commit (.insert _ _ _) => False
  | .commit (.remove _ found) => found = false
  | .commit _ => True
  | .loadStamp bucketIdx slot => self.Reads bucketIdx ∧ self.duty = .clear ∧ self.Sees slot True
  | .storeStamp bucketIdx slot stamp =>
      self.InBucket bucketIdx ∧ (∃ fresh, self.duty = .dated slot fresh stamp.epoch) ∧
        ∃ key value, self.call = some (.insert key value stamp.ttl)
  | .addCount => (∃ bucketIdx, self.InBucket bucketIdx) ∧ self.duty = .uncounted ∧
      (config.autoResize → self.load.Passed)
  | .subCount => (∃ bucketIdx, self.InBucket bucketIdx) ∧ self.duty = .overcounted
  | .storeCount count => self.held = [.exclusive] ∧ self.duty = .rebuilt count
  | .loadCount => self.call = none ∧ self.load = .untested ∨
      self.held = [.shared] ∧ (∃ key value, self.Inserts key value) ∧
        ∃ numBuckets, self.size = some numBuckets ∧ self.load = .sized numBuckets
  | .addEvictionCount => (∃ bucketIdx, self.InBucket bucketIdx) ∧ self.duty = .clear
  | .addEpoch => (∃ key value, self.Inserts key value) ∧ self.advanced = false
  | .rehash newActual => self.held = [.exclusive] ∧ self.duty = .clear ∧
      (∃ many, newActual = 2 ^ many) ∧
        ∃ size, self.size = some size ∧ size < newActual ∧
          ((∃ wanted, self.call = some (.resize wanted)) ∨ self.load.Grows size newActual)
  | _ => True

def next (self : Standing) : (action : SyncAction) → action.Response → Standing
  | .finish _ _, _ => { self with call := none, load := .untested, removed := false }
  | .readLock, _ => { self with held := .shared :: self.held, size := none }
  | .readUnlock, _ => { self with held := self.held.tail, load := self.load.onLeave }
  | .writeLock, _ => { self with held := .exclusive :: self.held, size := none }
  | .writeUnlock, _ => { self with held := self.held.tail }
  | .isPoisoned, poisoned => { self with doomed := poisoned }
  | .poison, _ => { self with held := self.held.tail }
  | .readLayout, (numBuckets, _) =>
      { self with load := self.load.onSize numBuckets, size := some numBuckets }
  | .lockBucket bucketIdx, locked =>
      if locked then { self with held := .bucket bucketIdx :: self.held } else self
  | .unlockBucket _, _ => { self with held := self.held.tail, view := none }
  | .readBucket _, bucket => { self with view := some bucket }
  | .slabLock, _ => { self with held := .slab true :: self.held }
  | .slabUnlock, _ => { self with held := self.held.tail }
  | .updateSlot _ slot _ _ _, _ => { self with view := none, duty := .unstamped slot false }
  | .placeSlot _ slot _ _ _ _, _ =>
      { self with view := none, duty := .unstamped slot (decide (self.duty = .clear)) }
  | .clearSlot _ _ _, _ => { self with view := none, duty := .overcounted, removed := true }
  | .storeStamp _ _ _, _ =>
      { self with duty := match self.duty with
        | .dated _ true _ => .uncounted
        | _ => .clear }
  | .loadEpoch, epoch =>
      { self with duty := match self.duty with
        | .unstamped slot fresh => .dated slot fresh epoch
        | other => other }
  | .loadCount, len => { self with load := self.load.onCount len }
  | .addCount, _ => { self with duty := .clear, load := .untested }
  | .subCount, _ => { self with duty := .clear }
  | .storeCount _, _ => { self with duty := .clear }
  | .addEvictionCount, _ => { self with duty := .evicting }
  | .addEpoch, _ => { self with advanced := true }
  | .rehash newActual, answer =>
      match answer with
      | some (some count) =>
          { self with duty := .rebuilt count, load := self.load.onGrowth, size := some newActual }
      | some none => { self with doomed := decide (SyncMap.maxBuckets < newActual * 2) }
      | none => { self with doomed := true }
  | _, _ => self

end Standing

def standingDiscipline (config : SyncConfig) : Discipline (syncMachine config) where
  Local := Standing
  Allows := Standing.Allows config
  next := Standing.next

end PulseMap
