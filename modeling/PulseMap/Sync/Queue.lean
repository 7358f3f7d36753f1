import PulseMap.Raw.Deferred
import PulseMap.Sync.Solo

/-!
The access buffer of a map that one thread has for itself: a queue of accesses that its
hits extend and the drain of its inserts applies, oldest first.
-/

namespace PulseMap

namespace SyncMap

open SyncProgram

variable {config : SyncConfig} {map : SyncMap} {thread : Nat}

def table (map : SyncMap) : Table where
  views := fun bucket => ⟨(map.layout.buckets bucket).metaWord, map.layout.content bucket⟩
  evictions := map.evictionCount
  epoch := map.currentEpoch

def home (config : SyncConfig) (map : SyncMap) (key : Bytes) : Nat :=
  config.bucketIndex (config.hash key).h1 map.layout.bucketMask

def fingerprint (config : SyncConfig) (key : Bytes) : Byte := (config.hash key).h2

structure Timeless (map : SyncMap) : Prop where
  default : Unlimited map.defaultTtl
  stamps : ∀ bucket slot, (map.layout.content bucket slot).isSome →
    Unlimited (map.layout.epochs (bucket * 4 + slot.val)).ttl

theorem Matches.same_table {before after : SyncMap} (same : Matches before after) :
    after.table = before.table := by
  rw [same]
  rfl

theorem Matches.timeless {before after : SyncMap} (same : Matches before after)
    (timeless : before.Timeless) : after.Timeless := by
  rw [same]
  exact ⟨timeless.default, timeless.stamps⟩

/-! ### The queue -/

def accessOf (position : Position) : Access 64 :=
  (BitVec.ofNat 64 position.1, BitVec.ofNat 8 position.2.val)

def Queued (map : SyncMap) (events : List Position) : Prop :=
  ∃ queue : BoundedQueue (Access 64) 4096, queue.items = events.map accessOf ∧
    map.accessBuffer.Represents 12 queue

theorem queued_same {other : SyncMap} {events : List Position}
    (same : other.accessBuffer = map.accessBuffer) (queued : map.Queued events) :
    other.Queued events := by
  rw [Queued, same]
  exact queued

theorem queued_new (numBuckets : Nat) : (SyncMap.new numBuckets).Queued [] := by
  have invariant : (RingState.new 4096 : RingState 64).Invariant 12 :=
    RingState.new_invariant 4096 12 (by decide)
  have still : (RingState.new 4096 : RingState 64).Still := fun _ => rfl
  exact ⟨⟨[], Nat.zero_le _⟩, rfl, still, RingState.settled_of_still invariant still, rfl, rfl⟩

theorem access_slot (slot : Fin 4) : Fin.ofNat 4 (BitVec.ofNat 8 slot.val).toNat = slot := by
  revert slot
  decide

theorem access_bucket {bucket : Nat} (small : bucket < 2 ^ 56) :
    (BitVec.ofNat 64 bucket).toNat = bucket := by
  rw [BitVec.toNat_ofNat]
  omega

theorem access_valid {position : Position} (small : position.1 < 2 ^ 56) :
    (accessOf position).valid = true := by
  have low : ∀ slot : Fin 4, BitVec.ofNat 8 slot.val < 4#8 := by decide
  have high : BitVec.ofNat 64 position.1 ≤ BitVec.allOnes 64 >>> 2 := by
    rw [BitVec.le_def, access_bucket small]
    change position.1 ≤ 2 ^ 62 - 1
    omega
  rw [Access.valid, Bool.and_eq_true]
  exact ⟨decide_eq_true (low position.2), decide_eq_true high⟩

theorem queued_push {events : List Position} {position : Position} (queued : map.Queued events)
    (room : events.length < 4096) (small : position.1 < 2 ^ 56) (thread : Nat) {after : SyncMap}
    (pushed : after.accessBuffer = (map.accessBuffer.push thread (accessOf position)).2) :
    after.Queued (events ++ [position]) := by
  obtain ⟨queue, items, represents⟩ := queued
  have fits : queue.items.length < 4096 := by
    rw [items, List.length_map]
    exact room
  have kept := (RingState.push_accepted represents (by decide) (by decide) thread
    (access_valid small) fits).2
  rw [← pushed] at kept
  refine ⟨(queue.push (accessOf position)).2, ?_, kept⟩
  rw [BoundedQueue.push_room fits, List.map_append, ← items]
  rfl

theorem queued_pop {events : List Position} {position : Position}
    (queued : map.Queued (position :: events)) (thread : Nat) {after : SyncMap}
    (popped : after.accessBuffer = (map.accessBuffer.pop thread).2) :
    (map.accessBuffer.pop thread).1 = some (accessOf position) ∧ after.Queued events := by
  obtain ⟨queue, items, represents⟩ := queued
  have bounded := queue.bounded
  rw [items, List.map_cons, List.length_cons] at bounded
  have first : queue.items = accessOf position ::
      (⟨events.map accessOf, by omega⟩ : BoundedQueue (Access 64) 4096).items := items
  obtain ⟨answer, kept⟩ := RingState.pop_item represents (by decide) (by decide) thread first
  rw [← popped] at kept
  exact ⟨answer, _, rfl, kept⟩

theorem queued_pop_nil (queued : map.Queued []) (thread : Nat) {after : SyncMap}
    (popped : after.accessBuffer = (map.accessBuffer.pop thread).2) :
    (map.accessBuffer.pop thread).1 = none ∧ after.Queued [] := by
  obtain ⟨queue, items, represents⟩ := queued
  obtain ⟨answer, kept⟩ := RingState.pop_empty represents (by decide) thread items
  rw [← popped] at kept
  exact ⟨answer, queue, items, kept⟩

/-! ### The drain -/

def accessed (map : SyncMap) (events : List Position) : SyncMap :=
  events.foldl (fun map position => map.setBucket position.1 { map.layout.buckets position.1 with
    metaWord := (map.layout.buckets position.1).metaWord.onAccess position.2 }) map

theorem accessed_table (map : SyncMap) (events : List Position) :
    (map.accessed events).table = map.table.replay events := by
  induction events generalizing map with
  | nil => rfl
  | cons position rest induction =>
      refine (induction _).trans ?_
      refine congrArg (Table.replay · rest) ?_
      simp only [table, Table.touch, setBucket, Table.mk.injEq, and_true]
      funext bucket
      by_cases same : bucket = position.1
      · simp [same]
      · simp [same]

theorem accessed_layout (events : List Position)
    (invariant : map.layout.Invariant config Layout.still) :
    (map.accessed events).layout.Invariant config Layout.still := by
  induction events generalizing map with
  | nil => exact invariant
  | cons position rest induction =>
      exact induction (Layout.on_access invariant position.1 position.2)

theorem accessed_else (map : SyncMap) (events : List Position) :
    map.accessed events = { map with
      layout := { map.layout with buckets := (map.accessed events).layout.buckets } } := by
  induction events generalizing map with
  | nil => rfl
  | cons position rest induction =>
      refine (induction _).trans ?_
      rfl

theorem accessed_vacant (vacant : map.Vacant config) (events : List Position) :
    (map.accessed events).Vacant config := by
  refine ⟨accessed_layout events vacant.layout, ?_, ?_, ?_, ?_, ?_⟩
  all_goals rw [accessed_else]
  · exact vacant.readers
  · exact vacant.writer
  · exact vacant.locks
  · exact vacant.slab
  · exact vacant.clean

theorem accessed_timeless (timeless : map.Timeless) (events : List Position) :
    (map.accessed events).Timeless := by
  rw [accessed_else]
  exact ⟨timeless.default, timeless.stamps⟩

theorem Buffers.vacant {before after : SyncMap} (same : Buffers before after)
    (vacant : before.Vacant config) : after.Vacant config := by
  rw [same]
  exact ⟨vacant.layout, vacant.readers, vacant.writer, vacant.locks, vacant.slab, vacant.clean⟩

theorem accessed_readers (map : SyncMap) (readers : Finset Nat) (events : List Position) :
    { map with readers := readers }.accessed events =
      { map.accessed events with readers := readers } := by
  induction events generalizing map with
  | nil => rfl
  | cons position rest induction => exact induction (map.accessed [position])

theorem buffers_accessed {before after : SyncMap} (same : Buffers before after)
    (events : List Position) : Buffers (before.accessed events) (after.accessed events) := by
  induction events generalizing before after with
  | nil => exact same
  | cons position rest induction =>
      apply induction
      unfold Buffers at same ⊢
      rw [same]
      rfl

theorem drain_exec (config : SyncConfig) (thread : Nat) {events : List Position}
    (free : ∀ bucket, map.locks bucket = none)
    (inRange : ∀ position ∈ events, position.1 < map.layout.numBuckets)
    (small : map.layout.numBuckets ≤ 2 ^ 56) (queued : map.Queued events) {budget : Nat}
    (enough : events.length ≤ budget) :
    ∃ after, (drain budget : SyncProgram config Unit).exec thread map = some ((), after) ∧
      Buffers (map.accessed events) after ∧ after.Queued [] := by
  induction budget generalizing map events with
  | zero =>
      obtain rfl := List.length_eq_zero_iff.mp (Nat.le_zero.mp enough)
      exact ⟨map, rfl, Buffers.refl map, queued⟩
  | succ budget induction =>
      obtain ⟨popped, ran, same, buffer⟩ := pop_exec config thread map
      cases events with
      | nil =>
          obtain ⟨answer, rest⟩ := queued_pop_nil queued thread buffer
          rw [answer] at ran
          exact ⟨popped, exec_part _ ran, same, rest⟩
      | cons position events =>
          obtain ⟨answer, rest⟩ := queued_pop queued thread buffer
          have inside : position.1 < map.layout.numBuckets := inRange position (by simp)
          have target : (accessOf position).1.toNat = position.1 := access_bucket (by omega)
          have slot : Fin.ofNat 4 (accessOf position).2.toNat = position.2 := access_slot position.2
          let current : SyncMap := popped.setBucket position.1
            { popped.layout.buckets position.1 with
              metaWord := (popped.layout.buckets position.1).metaWord.onAccess position.2 }
          let held : Nat → Option Nat := Function.update popped.locks position.1 (some thread)
          have locks : popped.locks = map.locks := by rw [same]
          have size : popped.layout.numBuckets = map.layout.numBuckets := by rw [same]
          have locked : popped.perform config thread (.lockBucket position.1) =
              some (true, { popped with locks := held }) := by
            simp [perform, locks, size, free, inside, held]
          have applied : SyncMap.perform config thread (.onAccess position.1 position.2)
              { popped with locks := held } = some ((), { current with locks := held }) := rfl
          have unlocked : SyncMap.perform config thread (.unlockBucket position.1)
              { current with locks := held } = some ((), current) := by
            have released : Function.update held position.1 none = popped.locks := by
              rw [Function.update_idem, Function.update_eq_self_iff, locks]
              exact (free position.1).symm
            simp only [perform, released]
            rfl
          have lockedAlone : (lockBucket position.1 : SyncProgram config Unit).exec thread popped =
              some ((), { popped with locks := held }) := by
            unfold lockBucket
            rw [exec_atomic _ locked]
            rfl
          obtain ⟨after, drained, kept, empty⟩ : ∃ after,
              (drain budget : SyncProgram config Unit).exec thread current = some ((), after) ∧
                Buffers (current.accessed events) after ∧ after.Queued [] := induction
            (fun bucket => (congrFun locks bucket).trans (free bucket))
            (fun other member => size.symm ▸ inRange other (by simp [member])) (size.symm ▸ small)
            (queued_same rfl rest) (by simpa using enough)
          have stepped : Buffers (map.accessed [position]) current := buffers_accessed same [position]
          rw [answer] at ran
          refine ⟨after, (exec_part _ ran).trans ?_, (buffers_accessed stepped events).trans kept, empty⟩
          change (lockBucket (accessOf position).1.toNat >>= fun _ =>
            atomic (.onAccess (accessOf position).1.toNat
              (Fin.ofNat 4 (accessOf position).2.toNat)) >>= fun _ =>
                atomic (.unlockBucket (accessOf position).1.toNat) >>= fun _ =>
                  drain budget).exec thread popped = _
          rw [target, slot, exec_part _ lockedAlone, exec_atomic _ applied, exec_atomic _ unlocked,
            drained]

/-- The drain of an insert, from the read lock on. -/
theorem drain_alone_exec (thread : Nat) (vacant : map.Vacant config) {events : List Position}
    (inRange : ∀ position ∈ events, position.1 < map.layout.numBuckets) (queued : map.Queued events)
    (short : events.length ≤ 64) :
    ∃ drained : SyncMap, (drain drainBatch : SyncProgram config Unit).exec thread
        { map with readers := {thread} } = some ((), { drained with readers := {thread} }) ∧
      Buffers (map.accessed events) drained ∧ drained.Queued [] := by
  let within : SyncMap := { map with readers := {thread} }
  have free : ∀ bucket, within.locks bucket = none := vacant.locks
  have waiting : within.Queued events := queued
  obtain ⟨after, ran, same, empty⟩ := drain_exec config thread free inRange
    (Layout.bucket_bound vacant.layout) waiting short
  unfold Buffers at same
  rw [accessed_readers] at same
  have readers : after.readers = {thread} := by rw [same]
  refine ⟨{ after with readers := map.readers }, ?_, ?_, empty⟩
  · have kept : ({ after with readers := {thread} } : SyncMap) = after := by
      rw [← readers]
      rfl
    exact ran.trans (congrArg (fun final => some ((), final)) kept.symm)
  · unfold Buffers
    rw [same, accessed_else map events]

end SyncMap

end PulseMap
