import PulseMap.Sync.Census

/-!
The stamps of the slots against the trace. The trail of a binding leads from the write of
the slot through the load of the epoch to the store of the stamp, all by the thread that
wrote it; a slot outside critical sections carries the stamp at the end of its trail.
-/

namespace PulseMap

variable {config : SyncConfig}

/-! ### Events -/

namespace SyncAction

def binds : SyncAction → Option (Bytes × Bytes)
  | updateSlot _ _ _ key value => some (key, value)
  | placeSlot _ _ _ _ key value => some (key, value)
  | _ => none

def advances : SyncAction → Bool
  | addEpoch => true
  | _ => false

end SyncAction

def SyncCall.isInsert : SyncCall → Bool
  | insert _ _ _ => true
  | _ => false

def Event.advances : Event (syncMachine config) SyncCall → Bool
  | called _ _ => false
  | acted _ action _ => SyncAction.advances action

def increments (past : SyncEvents config) : Nat := past.countP Event.advances

/-- How far the stamp of a binding is: the numbers are the increments of the epoch before
its load. -/
inductive Stage where
  | written (thread : Nat)
  | loaded (thread : Nat) (epoch : Word) (count : Nat)
  | stamped (stamp : SlotTTL) (count : Nat)

namespace Stage

def Moved (self : Stage) (thread : Nat) (action : SyncAction) : Prop :=
  match self, action with
  | written owner, .loadEpoch => owner = thread
  | loaded owner _ _, .storeStamp _ _ _ => owner = thread
  | _, _ => False

/-- The epoch is the number of increments before its load. -/
def Exact : Stage → Prop
  | written _ => True
  | loaded _ epoch count => epoch = BitVec.ofNat 64 count
  | stamped stamp count => stamp.epoch = BitVec.ofNat 64 count

def Within (bound : Nat) : Stage → Prop
  | written _ => True
  | loaded _ _ count => count ≤ bound
  | stamped _ count => count ≤ bound

end Stage

/-- The trail of the latest binding of a key, with the value it was bound to. -/
inductive Trail (key value : Bytes) : SyncEvents config → Stage → Prop
  | written {past : SyncEvents config} {thread : Nat} {action : SyncAction}
      {response : action.Response} :
      action.binds = some (key, value) →
      Trail key value (past ++ [.acted thread action response]) (.written thread)
  | loaded {past : SyncEvents config} {thread : Nat} {epoch : Word} :
      Trail key value past (.written thread) →
      Trail key value (past ++ [.acted thread SyncAction.loadEpoch epoch])
        (.loaded thread epoch (increments past))
  | stamped {past : SyncEvents config} {thread bucketIdx : Nat} {slot : Fin 4} {stamp : SlotTTL}
      {count : Nat} :
      Trail key value past (.loaded thread stamp.epoch count) →
      Trail key value (past ++ [.acted thread (SyncAction.storeStamp bucketIdx slot stamp) ()])
        (.stamped stamp count)
  | called {past : SyncEvents config} {stage : Stage} {thread : Nat} {call : SyncCall} :
      Trail key value past stage → Trail key value (past ++ [.called thread call]) stage
  | acted {past : SyncEvents config} {stage : Stage} {thread : Nat} {action : SyncAction}
      {response : action.Response} :
      Trail key value past stage → (∀ other, action.binds ≠ some (key, other)) →
      ¬ stage.Moved thread action →
      Trail key value (past ++ [.acted thread action response]) stage

/-- The stage of a slot of the thread's bucket, if its stamp was this one before. -/
def Duty.stage (self : Duty) (thread : Nat) (slot : Fin 4) (stamp : SlotTTL) (count : Nat) : Stage :=
  match self with
  | clear => .stamped stamp count
  | evicting => .stamped stamp count
  | unstamped other _ => if other = slot then .written thread else .stamped stamp count
  | dated other _ epoch => if other = slot then .loaded thread epoch count else .stamped stamp count
  | uncounted => .stamped stamp count
  | overcounted => .stamped stamp count
  | rebuilt _ => .stamped stamp count

section Step

variable {past : SyncEvents config} {places : Nat → Standing} {map after : SyncMap} {thread : Nat}
  {action : SyncAction} {response : action.Response} {place : Standing}

end Step

end PulseMap
