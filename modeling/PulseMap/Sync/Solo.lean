import PulseMap.Engine.RingQueue
import PulseMap.Sync.RehashSpec
import PulseMap.Sync.Reachable

/-!
Calls that run alone, from the moment their lock of the map is free until they return. A
buffer call leaves everything but the access buffer as it was, and `peek` answers what the
stored pair and its stamp say.
-/

namespace PulseMap

namespace SyncMap

open SyncProgram

/-- No thread is inside the locks of the map, and none has panicked there. -/
structure Vacant (config : SyncConfig) (map : SyncMap) : Prop where
  layout : map.layout.Invariant config Layout.still
  readers : map.readers = ∅
  writer : map.writer = none
  locks : ∀ bucketIdx, map.locks bucketIdx = none
  slab : map.slabHolder = none
  clean : map.poisoned = false

variable {config : SyncConfig} {map : SyncMap}

theorem vacant_of_unlocked (invariant : map.Invariant config False) (readers : map.readers = ∅)
    (writer : map.writer = none) (clean : map.poisoned = false) : map.Vacant config := by
  have locks : ∀ bucketIdx, map.locks bucketIdx = none := by
    intro bucketIdx
    rw [Option.eq_none_iff_forall_ne_some]
    intro thread held
    have reads := (invariant.locked bucketIdx thread held).1
    simp [readers] at reads
  have still : map.transit = Layout.still := funext fun bucketIdx =>
    invariant.moving bucketIdx (locks bucketIdx)
  refine ⟨?_, readers, writer, locks, ?_, clean⟩
  · rw [← still]
    exact invariant.layout
  · rw [Option.eq_none_iff_forall_ne_some]
    intro thread held
    have reads := invariant.slab thread held
    simp [readers] at reads

/-! ### The locks of the map -/

theorem read_inner_exec (vacant : map.Vacant config) (thread : Nat) :
    (readInner : SyncProgram config Unit).exec thread map =
      some ((), { map with readers := {thread} }) := by
  let within : SyncMap := { map with readers := {thread} }
  have entered : map.perform config thread .readLock = some ((), within) := by
    simp [perform, vacant.writer, vacant.readers, within]
  have checked : within.perform config thread .isPoisoned = some (false, within) :=
    congrArg (fun poisoned => some (poisoned, within)) vacant.clean
  unfold readInner
  rw [exec_atomic _ entered, exec_atomic _ checked]
  rfl

theorem write_inner_exec (vacant : map.Vacant config) (thread : Nat) :
    (writeInner : SyncProgram config Unit).exec thread map =
      some ((), { map with writer := some thread }) := by
  let writing : SyncMap := { map with writer := some thread }
  have entered : map.perform config thread .writeLock = some ((), writing) := by
    simp [perform, vacant.writer, vacant.readers, writing]
  have checked : writing.perform config thread .isPoisoned = some (false, writing) :=
    congrArg (fun poisoned => some (poisoned, writing)) vacant.clean
  unfold writeInner
  rw [exec_atomic _ entered, exec_atomic _ checked]
  rfl

/-! ### The access buffer -/

/-- Only the access buffer and its records differ. -/
def Buffers (before after : SyncMap) : Prop :=
  after = { before with
    accessBuffer := after.accessBuffer, pushedIn := after.pushedIn, deliveredIn := after.deliveredIn }

theorem Buffers.refl (map : SyncMap) : Buffers map map := rfl

theorem Buffers.trans {first second third : SyncMap} (early : Buffers first second)
    (late : Buffers second third) : Buffers first third := by
  unfold Buffers at early late ⊢
  rw [late, early]

theorem buffers_act (map : SyncMap) (action : RingAction 64) : Buffers map (map.bufferAct action) :=
  rfl

theorem complete_call_exec (config : SyncConfig) (thread fuel : Nat) (map : SyncMap) :
    ∃ after, (completeCall fuel (map.accessBuffer.threads thread).call :
        SyncProgram config _).exec thread map =
          some ((after.accessBuffer.threads thread).call, after) ∧
      Buffers map after ∧ after.accessBuffer = map.accessBuffer.complete thread fuel := by
  induction fuel generalizing map with
  | zero => exact ⟨map, rfl, Buffers.refl map, rfl⟩
  | succ fuel induction =>
      unfold completeCall
      by_cases returned : (map.accessBuffer.threads thread).call.returned = true
      · rw [if_pos returned, RingState.complete, if_pos returned]
        exact ⟨map, rfl, Buffers.refl map, rfl⟩
      · rw [if_neg returned, RingState.complete, if_neg returned]
        obtain ⟨after, ran, same, final⟩ := induction (map.bufferAct (.step thread))
        exact ⟨after, ran, (buffers_act map _).trans same, final⟩

theorem push_exec (config : SyncConfig) (thread bucketIdx : Nat) (slot : Fin 4) (map : SyncMap) :
    ∃ after, (push bucketIdx slot : SyncProgram config _).exec thread map = some ((), after) ∧
      Buffers map after ∧ after.accessBuffer = (map.accessBuffer.push thread
        (BitVec.ofNat 64 bucketIdx, BitVec.ofNat 8 slot.val)).2 := by
  let event : Access 64 := (BitVec.ofNat 64 bucketIdx, BitVec.ofNat 8 slot.val)
  let next := map.bufferAct (.push thread event)
  obtain ⟨after, ran, same, final⟩ := complete_call_exec config thread 5 next
  have performed : map.perform config thread (.startPush event) =
      some ((next.accessBuffer.threads thread).call, next) := rfl
  refine ⟨after, ?_, (buffers_act map _).trans same, final⟩
  unfold push
  rw [exec_atomic _ performed, exec_part _ ran]
  rfl

theorem pop_exec (config : SyncConfig) (thread : Nat) (map : SyncMap) :
    ∃ after, (pop : SyncProgram config _).exec thread map =
        some ((map.accessBuffer.pop thread).1, after) ∧
      Buffers map after ∧ after.accessBuffer = (map.accessBuffer.pop thread).2 := by
  let next := map.bufferAct (.pop thread)
  obtain ⟨after, ran, same, final⟩ := complete_call_exec config thread 5 next
  have performed : map.perform config thread .startPop =
      some ((next.accessBuffer.threads thread).call, next) := rfl
  refine ⟨after, ?_, (buffers_act map _).trans same, final⟩
  have answer : (map.accessBuffer.pop thread).1 =
      (after.accessBuffer.threads thread).call.delivered := by
    rw [final]
    rfl
  unfold pop
  rw [exec_atomic _ performed, exec_part _ ran, answer]
  cases (after.accessBuffer.threads thread).call <;> rfl

theorem clear_exec (config : SyncConfig) (thread budget : Nat) (map : SyncMap) :
    ∃ after, (clear budget : SyncProgram config _).exec thread map = some ((), after) ∧
      Buffers map after := by
  induction budget generalizing map with
  | zero => exact ⟨map, rfl, Buffers.refl map⟩
  | succ budget induction =>
      obtain ⟨popped, ran, same, _⟩ := pop_exec config thread map
      unfold clear
      rw [exec_part _ ran]
      cases (map.accessBuffer.pop thread).1 with
      | none => exact ⟨popped, rfl, same⟩
      | some event =>
          obtain ⟨after, cleared, rest⟩ := induction popped
          exact ⟨after, cleared, same.trans rest⟩

/-! ### The frame of a call -/

/-- The two maps differ in the slab pool, the access buffer and the records only. -/
def Matches (before after : SyncMap) : Prop :=
  after = { before with
    layout := { before.layout with slabPool := after.layout.slabPool }
    accessBuffer := after.accessBuffer
    transit := after.transit
    history := after.history
    calls := after.calls
    outcome := after.outcome
    started := after.started
    returned := after.returned
    pushedIn := after.pushedIn
    deliveredIn := after.deliveredIn }

theorem Matches.refl (map : SyncMap) : Matches map map := rfl

theorem Matches.trans {first second third : SyncMap} (early : Matches first second)
    (late : Matches second third) : Matches first third := by
  unfold Matches at early late ⊢
  rw [late, early]

theorem Buffers.matches {before after : SyncMap} (same : Buffers before after) :
    Matches before after := by
  unfold Buffers at same
  rw [same]
  rfl

theorem matches_record (map : SyncMap) (thread : Nat) (event : SyncEvent) :
    Matches map (map.record thread event) := rfl

def inside (map : SyncMap) (thread bucketIdx : Nat) : SyncMap :=
  { map with readers := {thread}, locks := Function.update map.locks bucketIdx (some thread) }

theorem matches_released {thread bucketIdx : Nat} {left : SyncMap} (readers : map.readers = ∅)
    (free : map.locks bucketIdx = none) (done : Matches (map.inside thread bucketIdx) left) :
    Matches map { left with
      locks := Function.update left.locks bucketIdx none
      readers := left.readers.erase thread } := by
  have locks : Function.update left.locks bucketIdx none = map.locks := by
    rw [done]
    simp only [inside, Function.update_idem]
    rw [← free, Function.update_eq_self]
  have none : left.readers.erase thread = map.readers := by
    rw [done, readers]
    simp [inside]
  unfold Matches at done ⊢
  rw [locks, none, done]
  rfl

/-- The frame of a call alone: its locks are free, and everything it took is given back. -/
theorem with_bucket_exec {thread bucketIdx : Nat} {h1 : Word} {Result : Type}
    {before : SyncProgram config Unit} {body : Nat → Bucket → SyncProgram config Result}
    {result : Result} {drained target left : SyncMap} (vacant : map.Vacant config)
    (index : config.bucketIndex h1 map.layout.bucketMask = bucketIdx)
    (first : before.exec thread { map with readers := {thread} } =
      some ((), { drained with readers := {thread} }))
    (free : drained.locks bucketIdx = none)
    (size : drained.layout.numBuckets = map.layout.numBuckets)
    (inner : (body bucketIdx (drained.layout.buckets bucketIdx)).exec thread
      (drained.inside thread bucketIdx) = some (result, left))
    (done : Matches (target.inside thread bucketIdx) left) (readers : target.readers = ∅)
    (freed : target.locks bucketIdx = none) :
    ∃ after, (withBucket h1 before body).exec thread map = some (result, after) ∧
      Matches target after ∧ after.accessBuffer = left.accessBuffer := by
  let within : SyncMap := { map with readers := {thread} }
  let unlocked : SyncMap := { drained with readers := {thread} }
  have entered : (readInner : SyncProgram config Unit).exec thread map = some ((), within) :=
    read_inner_exec vacant thread
  have bound : ¬ drained.layout.numBuckets ≤ bucketIdx := by
    rw [size, ← index, Nat.not_le]
    exact Layout.index_lt vacant.layout h1
  have taken : unlocked.perform config thread (.lockBucket bucketIdx) =
      some (true, drained.inside thread bucketIdx) := by
    simp [perform, unlocked, inside, free, bound]
  have sized : within.perform config thread .readLayout =
      some ((map.layout.numBuckets, map.layout.bucketMask), within) := rfl
  have locked : (lockBucket bucketIdx : SyncProgram config Unit).exec thread unlocked =
      some ((), drained.inside thread bucketIdx) := by
    unfold lockBucket
    rw [exec_atomic _ taken]
    rfl
  have seen : (drained.inside thread bucketIdx).perform config thread (.readBucket bucketIdx) =
      some (drained.layout.buckets bucketIdx, drained.inside thread bucketIdx) := rfl
  refine ⟨_, ?_, matches_released readers freed done, rfl⟩
  unfold withBucket
  rw [exec_part _ entered, exec_atomic _ sized]
  change (before >>= fun _ => lockBucket (config.bucketIndex h1 map.layout.bucketMask) >>= fun _ =>
    atomic (.readBucket (config.bucketIndex h1 map.layout.bucketMask)) >>= fun bucket =>
      body (config.bucketIndex h1 map.layout.bucketMask) bucket >>= fun result =>
        atomic (.unlockBucket (config.bucketIndex h1 map.layout.bucketMask)) >>= fun _ =>
          atomic .readUnlock >>= fun _ => pure result).exec thread within = _
  rw [exec_part _ first, index, exec_part _ locked, exec_atomic _ seen, exec_part _ inner]
  rfl

theorem in_bucket_exec {thread bucketIdx : Nat} {h1 : Word} {Result : Type}
    {body : Nat → Bucket → SyncProgram config Result} {result : Result} {target left : SyncMap}
    (vacant : map.Vacant config)
    (index : config.bucketIndex h1 map.layout.bucketMask = bucketIdx)
    (inner : (body bucketIdx (map.layout.buckets bucketIdx)).exec thread
      (map.inside thread bucketIdx) = some (result, left))
    (done : Matches (target.inside thread bucketIdx) left) (readers : target.readers = ∅)
    (freed : target.locks bucketIdx = none) :
    ∃ after, (withBucket h1 (pure ()) body).exec thread map = some (result, after) ∧
      Matches target after ∧ after.accessBuffer = left.accessBuffer :=
  have nothing : (pure () : SyncProgram config Unit).exec thread { map with readers := {thread} } =
      some ((), { map with readers := {thread} }) := rfl
  with_bucket_exec vacant index nothing (vacant.locks _) rfl inner done readers freed

/-! ### Peek -/

theorem is_expired_exec (thread bucketIdx : Nat) (slot : Fin 4) :
    (isExpired bucketIdx slot : SyncProgram config Bool).exec thread map =
      some ((map.layout.epochs (bucketIdx * 4 + slot.val)).expired map.defaultTtl map.currentEpoch,
        map) := by
  have performed : map.perform config thread (.loadStamp bucketIdx slot) =
      some (map.layout.epochs (bucketIdx * 4 + slot.val), map) := rfl
  unfold isExpired
  rw [exec_atomic _ performed]
  generalize map.layout.epochs (bucketIdx * 4 + slot.val) = stamp
  have chosen : (effectiveTtl stamp : SyncProgram config Word).exec thread map =
      some (stamp.effectiveTtl map.defaultTtl, map) := by
    unfold effectiveTtl SlotTTL.effectiveTtl
    split_ifs <;> rfl
  rw [exec_part _ chosen]
  by_cases unlimited : stamp.effectiveTtl map.defaultTtl = 0#64 ∨
      stamp.effectiveTtl map.defaultTtl = BitVec.allOnes 64
  · have live : stamp.expired map.defaultTtl map.currentEpoch = false := if_pos unlimited
    rw [if_pos unlimited, live]
    rfl
  · have limited : stamp.expired map.defaultTtl map.currentEpoch =
        decide (stamp.effectiveTtl map.defaultTtl < map.currentEpoch - stamp.epoch) :=
      if_neg unlimited
    rw [if_neg unlimited, limited]
    rfl

theorem candidates_stored (invariant : map.layout.Invariant config Layout.still) (bucketIdx : Nat)
    (key : Bytes) : ∀ slot ∈ (map.layout.buckets bucketIdx).candidates (config.hash key),
      ∃ name text, map.layout.content bucketIdx slot = some (name, text) ∧
        ((map.layout.buckets bucketIdx).slots slot).Stores config.wyhash map.layout.slabPool
          name text := by
  intro slot member
  obtain ⟨⟨name, text⟩, held⟩ := Option.isSome_iff_exists.mp
    (candidates_full (invariant.metaAgrees bucketIdx) _ slot member)
  have bytes := invariant.slotAgrees bucketIdx slot (by simp [Layout.still])
  rw [SlotAgrees, held] at bytes
  exact ⟨name, text, held, bytes⟩

/-- The slot that the candidate loop finds answers with its value, unless it is expired. -/
def peeked (map : SyncMap) (bucketIdx : Nat) (content : Content) (found : Option (Fin 4)) :
    Option Bytes :=
  found.bind fun slot =>
    if (map.layout.epochs (bucketIdx * 4 + slot.val)).expired map.defaultTtl map.currentEpoch then none
    else (content slot).map Prod.snd

theorem peek_slots_exec {thread bucketIdx : Nat} {bucket : Bucket} {content : Content}
    (free : map.slabHolder = none) (key : Bytes) (slots : List (Fin 4))
    (stored : ∀ slot ∈ slots, ∃ name text, content slot = some (name, text) ∧
      (bucket.slots slot).Stores config.wyhash map.layout.slabPool name text) :
    (peekSlots key (config.hash key) bucketIdx bucket slots : SyncProgram config _).exec thread map =
      some (map.peeked bucketIdx content
        (slots.find? fun slot => (content slot).map Prod.fst = some key), map) := by
  induction slots with
  | nil => rfl
  | cons slot rest induction =>
      obtain ⟨name, text, held, stores⟩ := stored slot (by simp)
      let guarded : SyncMap := { map with slabHolder := some thread }
      have locked : map.perform config thread .slabLock = some ((), guarded) := by
        simp [perform, free, guarded]
      have unlocked : guarded.perform config thread .slabUnlock = some ((), map) := by
        simp only [perform, guarded, ← free]
      have opened : guarded.slabOpen thread true = true := by simp [slabOpen, guarded]
      have compared : guarded.perform config thread
          (.matchesKey true (bucket.slots slot) key (config.hash key)) =
            some (some (decide (name = key)), guarded) := by
        have matched := Slot.stores_matches stores key
        simp only [perform, opened, if_true]
        exact congrArg (fun answer => some (answer, guarded)) matched
      unfold peekSlots
      rw [exec_atomic _ locked, exec_atomic _ compared]
      by_cases same : name = key
      · have valued : guarded.perform config thread (.slabValue true (bucket.slots slot)) =
            some (some text, guarded) := by
          have value := Slot.stores_value stores
          simp only [perform, opened, if_true]
          exact congrArg (fun answer => some (answer, guarded)) value
        have expiry : (isExpired bucketIdx slot : SyncProgram config Bool).exec thread guarded =
            some ((map.layout.epochs (bucketIdx * 4 + slot.val)).expired map.defaultTtl
              map.currentEpoch, guarded) := is_expired_exec thread bucketIdx slot
        have found : (slot :: rest).find? (fun slot => (content slot).map Prod.fst = some key) =
            some slot := by
          simp [held, same]
        rw [decide_eq_true same, found]
        change (isExpired bucketIdx slot >>= fun expired =>
          if expired then atomic .slabUnlock >>= fun _ => pure none
          else atomic (.slabValue true (bucket.slots slot)) >>= fun answer =>
            orPanic answer >>= fun value => atomic .slabUnlock >>= fun _ => pure (some value)).exec
              thread guarded = _
        rw [exec_part _ expiry]
        simp only [peeked, Option.bind_some, held]
        by_cases old : (map.layout.epochs (bucketIdx * 4 + slot.val)).expired map.defaultTtl
            map.currentEpoch = true
        · rw [if_pos old, if_pos old, exec_atomic _ unlocked]
          rfl
        · rw [if_neg old, if_neg old, exec_atomic _ valued]
          change (atomic .slabUnlock >>= fun _ => pure (some text)).exec thread guarded = _
          rw [exec_atomic _ unlocked]
          rfl
      · have skipped : (slot :: rest).find? (fun slot => (content slot).map Prod.fst = some key) =
            rest.find? fun slot => (content slot).map Prod.fst = some key := by
          simp [held, same]
        rw [decide_eq_false same, skipped]
        change (atomic .slabUnlock >>= fun _ =>
          peekSlots key (config.hash key) bucketIdx bucket rest).exec thread guarded = _
        rw [exec_atomic _ unlocked]
        exact induction fun other member => stored other (by simp [member])

theorem peek_exec (vacant : map.Vacant config) (thread : Nat) (key : Bytes) :
    let bucketIdx := config.bucketIndex (config.hash key).h1 map.layout.bucketMask
    let content := map.layout.content bucketIdx
    ∃ after, (peek key : SyncProgram config SyncResult).exec thread map =
        some (.value (map.peeked bucketIdx content (slotOf content key)), after) ∧
      Matches map after ∧ after.accessBuffer = map.accessBuffer := by
  intro bucketIdx content
  let locked : SyncMap := map.inside thread bucketIdx
  have agrees := vacant.layout.metaAgrees bucketIdx
  have unheld : locked.slabHolder = none := vacant.slab
  have searched : (peekSlots key (config.hash key) bucketIdx (map.layout.buckets bucketIdx)
      ((map.layout.buckets bucketIdx).candidates (config.hash key)) : SyncProgram config _).exec
        thread locked =
      some (map.peeked bucketIdx content
        (((map.layout.buckets bucketIdx).candidates (config.hash key)).find? fun slot =>
          (content slot).map Prod.fst = some key), locked) :=
    peek_slots_exec unheld key _ (candidates_stored vacant.layout bucketIdx key)
  have first : (((map.layout.buckets bucketIdx).candidates (config.hash key)).find? fun slot =>
      (content slot).map Prod.fst = some key) = slotOf content key := candidates_find agrees key
  rw [first] at searched
  have body : (peekBody key bucketIdx (map.layout.buckets bucketIdx) : SyncProgram config _).exec
      thread locked = some (map.peeked bucketIdx content (slotOf content key),
        locked.record thread (.read key (map.peeked bucketIdx content (slotOf content key)))) := by
    exact exec_part (fun found => atomic (.commit (.read key found)) >>= fun _ => pure found) searched
  obtain ⟨after, ran, same, buffer⟩ := in_bucket_exec vacant rfl body
    (matches_record locked thread _) vacant.readers (vacant.locks _)
  refine ⟨after, ?_, same, buffer⟩
  unfold peek
  rw [exec_part _ ran]
  rfl

/-! ### What is stored -/

theorem stored_position {key value : Bytes} {position : Position} (vacant : map.Vacant config)
    (held : map.layout.content position.1 position.2 = some (key, value)) :
    config.bucketIndex (config.hash key).h1 map.layout.bucketMask = position.1 ∧
      slotOf (map.layout.content position.1) key = some position.2 :=
  ⟨vacant.layout.home position.1 position.2 key value held,
    slot_of_eq (vacant.layout.distinct position.1) held⟩

def answer (map : SyncMap) (key : Bytes) : Option Bytes :=
  (map.layout.entries.find? fun entry => entry.keyBytes = key).bind fun entry =>
    if entry.slotTtl.expired map.defaultTtl map.currentEpoch then none else some entry.valBytes

theorem peeked_eq_answer (vacant : map.Vacant config) (key : Bytes) :
    let bucketIdx := config.bucketIndex (config.hash key).h1 map.layout.bucketMask
    map.peeked bucketIdx (map.layout.content bucketIdx)
      (slotOf (map.layout.content bucketIdx) key) = map.answer key := by
  intro bucketIdx
  unfold answer
  cases found : map.layout.entries.find? fun entry => entry.keyBytes = key with
  | none =>
      have absent : slotOf (map.layout.content bucketIdx) key = none := by
        rw [Option.eq_none_iff_forall_ne_some]
        intro slot held
        obtain ⟨value, held⟩ := slot_of_some held
        have entry : map.layout.entryOf (bucketIdx, slot) =
            some ⟨key, value, map.layout.epochs (bucketIdx * 4 + slot.val)⟩ := by
          simp [Layout.entryOf, held]
        have member := (Layout.mem_entries vacant.layout).mpr ⟨_, entry⟩
        simpa using List.find?_eq_none.mp found _ member
      rw [absent]
      rfl
  | some entry =>
      have same : entry.keyBytes = key := by simpa using List.find?_some found
      obtain ⟨position, stored⟩ :=
        (Layout.mem_entries vacant.layout).mp (List.mem_of_find?_eq_some found)
      have held := Layout.entry_of_content stored
      rw [same] at held
      obtain ⟨home, slot⟩ := stored_position vacant held
      have index : bucketIdx = position.1 := home
      have stamp : map.layout.epochs (position.1 * 4 + position.2.val) = entry.slotTtl := by
        obtain ⟨pair, _, rfl⟩ := Option.map_eq_some_iff.mp stored
        rfl
      rw [index, slot]
      simp [peeked, held, stamp]

end SyncMap

end PulseMap
