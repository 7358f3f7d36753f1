import PulseMap.Sync.Occupancy

/-!
The atomic counters. The counter of the map is the number of Full slots up to what the
threads inside buckets have still to add or to subtract, so whoever looks from outside
all locks finds it exact, and the overwrite of a resize changes nothing.
-/

namespace PulseMap

open Finset

namespace Duty

/-- By how much the counter is ahead of the Full slots while a thread owes this. -/
def due : Duty → Int
  | clear => 0
  | evicting => 0
  | unstamped _ fresh => if fresh then -1 else 0
  | dated _ fresh _ => if fresh then -1 else 0
  | uncounted => -1
  | overcounted => 1
  | rebuilt _ => 0

theorem due_in_buckets : InBuckets due := ⟨rfl, fun _ => rfl⟩

end Duty

structure Census (places : Nat → Standing) (map : SyncMap) : Prop where
  count : (map.count : Int) = map.layout.fullSlots + tally Duty.due places map
  covered : ∀ bucketIdx thread, map.locks bucketIdx = some thread →
    0 ≤ ((map.layout.buckets bucketIdx).fullSlots.card : Int) + (places thread).duty.due
  rebuilt : ∀ thread count, (places thread).duty = .rebuilt count → count = map.layout.fullSlots

section Step

variable {config : SyncConfig} {places : Nat → Standing} {map after : SyncMap} {thread : Nat}
  {action : SyncAction} {response : action.Response} {next : Standing}

/-- Whoever has cleared a slot still finds it counted. -/
theorem count_pos (census : Census places map) (located : Located places map)
    (invariant : map.Invariant config False) {bucketIdx : Nat}
    (inside : (places thread).InBucket bucketIdx) (duty : (places thread).duty = .overcounted) :
    0 < map.count := by
  have mine := located.locks inside
  let covers (index : Nat) : Int :=
    ((map.layout.buckets index).fullSlots.card : Int) + share Duty.due places map index
  have total : (map.count : Int) = ∑ index ∈ range map.layout.numBuckets, covers index := by
    rw [census.count, Layout.fullSlots, tally, Nat.cast_sum, ← sum_add_distrib]
  have nonneg : ∀ index ∈ range map.layout.numBuckets, 0 ≤ covers index := by
    intro index _
    cases holder : map.locks index with
    | none => simp [covers, share_free holder]
    | some other =>
        simp only [covers, share_held holder]
        exact census.covered index other holder
  have here : 1 ≤ covers bucketIdx := by
    simp only [covers, share_held mine, duty, Duty.due]
    omega
  have member : bucketIdx ∈ range map.layout.numBuckets :=
    mem_range.mpr (invariant.locked bucketIdx thread mine).2
  have below := single_le_sum nonneg member
  omega

/-- What a step of a thread does to the counter, the Full slots and its own duty. -/
structure Counted (thread : Nat) (place next : Standing) (map after : SyncMap) : Prop where
  count : (after.count : Int) - after.layout.fullSlots - next.duty.due =
    map.count - map.layout.fullSlots - place.duty.due
  slots : after.layout.fullSlots = map.layout.fullSlots ∨ thread ∈ map.readers
  covered : ∀ bucketIdx, after.locks bucketIdx = some thread →
    0 ≤ ((after.layout.buckets bucketIdx).fullSlots.card : Int) + next.duty.due
  rebuilt : ∀ count, next.duty = .rebuilt count → count = after.layout.fullSlots

theorem full_slots_same (size : after.layout.numBuckets = map.layout.numBuckets)
    (buckets : after.layout.buckets = map.layout.buckets) :
    after.layout.fullSlots = map.layout.fullSlots := by
  simp only [Layout.fullSlots, size, buckets]

theorem counted_aside (census : Census places map) (count : after.count = map.count)
    (size : after.layout.numBuckets = map.layout.numBuckets)
    (buckets : after.layout.buckets = map.layout.buckets)
    (locks : ∀ bucketIdx, after.locks bucketIdx = some thread →
      map.locks bucketIdx = some thread ∨ next.duty = .clear)
    (due : next.duty.due = (places thread).duty.due)
    (rebuilt : ∀ count, next.duty = .rebuilt count → (places thread).duty = .rebuilt count) :
    Counted thread (places thread) next map after where
  count := by rw [count, full_slots_same size buckets, due]
  slots := Or.inl (full_slots_same size buckets)
  covered := by
    intro bucketIdx holds
    rcases locks bucketIdx holds with held | clear
    · rw [buckets, due]
      exact census.covered bucketIdx thread held
    · rw [clear]
      simp [Duty.due]
  rebuilt := by
    intro number owes
    rw [full_slots_same size buckets]
    exact census.rebuilt thread number (rebuilt number owes)

/-- A rewritten slot of the thread's bucket: the change of the Full slots is owed. -/
theorem counted_write (located : Located places map) (invariant : map.Invariant config False)
    {bucketIdx : Nat} {written : Bucket} (inside : (places thread).InBucket bucketIdx)
    (locks : after.locks = map.locks) (count : after.count = map.count)
    (size : after.layout.numBuckets = map.layout.numBuckets)
    (buckets : after.layout.buckets = Function.update map.layout.buckets bucketIdx written)
    (due : (written.fullSlots.card : Int) + next.duty.due =
      (map.layout.buckets bucketIdx).fullSlots.card + (places thread).duty.due)
    (covered : 0 ≤ (written.fullSlots.card : Int) + next.duty.due)
    (rebuilt : ∀ count, next.duty ≠ .rebuilt count) :
    Counted thread (places thread) next map after where
  count := by
    have mine := located.locks inside
    have change := Layout.full_slots_write map.layout (invariant.locked bucketIdx thread mine).2
      written after.layout size buckets
    rw [count]
    omega
  slots := Or.inr (located.reads (located.locks inside))
  covered := by
    intro other holds
    rw [locks] at holds
    have same := invariant.single other bucketIdx thread holds (located.locks inside)
    rw [same, buckets, Function.update_self]
    exact covered
  rebuilt := fun number owes => absurd owes (rebuilt number)

theorem counted_act (census : Census places map) (located : Located places map)
    (invariant : map.Invariant config False) (allows : (places thread).Allows config action)
    (performed : map.perform config thread action = some (response, after)) :
    Counted thread (places thread) ((places thread).next action response) map after := by
  cases action with
  | readLock =>
      simp only [SyncMap.perform] at performed
      split_ifs at performed
      obtain rfl := (Prod.mk.inj (Option.some.inj performed)).2
      exact counted_aside census rfl rfl rfl (fun _ holds => Or.inl holds) rfl fun _ owes => owes
  | writeLock =>
      simp only [SyncMap.perform] at performed
      split_ifs at performed
      obtain rfl := (Prod.mk.inj (Option.some.inj performed)).2
      exact counted_aside census rfl rfl rfl (fun _ holds => Or.inl holds) rfl fun _ owes => owes
  | readUnlock =>
      obtain rfl := (Prod.mk.inj (Option.some.inj performed)).2
      exact counted_aside census rfl rfl rfl (fun _ holds => Or.inl holds) rfl fun _ owes => owes
  | writeUnlock =>
      obtain rfl := (Prod.mk.inj (Option.some.inj performed)).2
      exact counted_aside census rfl rfl rfl (fun _ holds => Or.inl holds) rfl fun _ owes => owes
  | lockBucket bucketIdx =>
      simp only [SyncMap.perform] at performed
      split_ifs at performed
      · obtain ⟨rfl, rfl⟩ := Prod.mk.inj (Option.some.inj performed)
        exact counted_aside census rfl rfl rfl (fun _ holds => Or.inl holds) rfl fun _ owes => owes
      · obtain ⟨rfl, rfl⟩ := Prod.mk.inj (Option.some.inj performed)
        exact counted_aside census rfl rfl rfl (fun _ _ => Or.inr allows.2.2) rfl
          fun _ owes => owes
  | unlockBucket bucketIdx =>
      obtain rfl := (Prod.mk.inj (Option.some.inj performed)).2
      exact counted_aside census rfl rfl rfl (fun _ _ => Or.inr allows.2) rfl fun _ owes => owes
  | onAccess bucketIdx slot =>
      obtain rfl := (Prod.mk.inj (Option.some.inj performed)).2
      refine counted_write located invariant allows.1 rfl rfl rfl rfl ?_ ?_ ?_
      · rw [Bucket.full_on_access]
        rfl
      · rw [Bucket.full_on_access]
        exact census.covered bucketIdx thread (located.locks allows.1)
      · exact (located.shaped thread).of_bucket (Or.inl allows.1)
  | updateSlot bucketIdx slot data key value =>
      obtain rfl := (Prod.mk.inj (Option.some.inj performed)).2
      obtain ⟨inside, duty, _⟩ := allows
      refine counted_write located invariant inside rfl rfl rfl rfl ?_ ?_ ?_
      · rw [Bucket.full_update, duty]
        rfl
      · simp [Standing.next, Duty.due]
      · simp [Standing.next]
  | placeSlot bucketIdx slot h2 data key value =>
      obtain rfl := (Prod.mk.inj (Option.some.inj performed)).2
      obtain ⟨inside, _, sees⟩ := allows
      have holds := located.locks inside
      rcases sees with ⟨duty, bucket, view, full⟩ | ⟨duty, bucket, view, full⟩
      · have here := located.view thread bucketIdx bucket holds view
        have absent : slot ∉ (map.layout.buckets bucketIdx).fullSlots := by
          simp only [here, Bucket.fullSlots, Finset.mem_filter_univ]
          exact full.mp
        have owed : ((places thread).next (.placeSlot bucketIdx slot h2 data key value)
            response).duty = .unstamped slot true := by simp [Standing.next, duty]
        refine counted_write located invariant inside rfl rfl rfl rfl ?_ ?_ ?_
        · rw [Bucket.full_place, Finset.card_insert_of_notMem absent, owed, duty]
          simp [Duty.due]
        · rw [Bucket.full_place, Finset.card_insert_of_notMem absent, owed]
          simp [Duty.due]
        · simp [owed]
      · have here := located.view thread bucketIdx bucket holds view
        have present : slot ∈ (map.layout.buckets bucketIdx).fullSlots := by
          simp only [here, Bucket.fullSlots, Finset.mem_filter_univ]
          exact full.mpr trivial
        have owed : ((places thread).next (.placeSlot bucketIdx slot h2 data key value)
            response).duty = .unstamped slot false := by simp [Standing.next, duty]
        refine counted_write located invariant inside rfl rfl rfl rfl ?_ ?_ ?_
        · rw [Bucket.full_place, Finset.insert_eq_of_mem present, owed, duty]
          simp [Duty.due]
        · rw [owed]
          simp [Duty.due]
        · simp [owed]
  | clearSlot bucketIdx slot key =>
      obtain rfl := (Prod.mk.inj (Option.some.inj performed)).2
      obtain ⟨inside, duty, ⟨bucket, view, full⟩, _⟩ := allows
      have here := located.view thread bucketIdx bucket (located.locks inside) view
      have present : slot ∈ (map.layout.buckets bucketIdx).fullSlots := by
        simp only [here, Bucket.fullSlots, Finset.mem_filter_univ]
        exact full.mpr trivial
      have positive := Finset.card_pos.mpr ⟨slot, present⟩
      refine counted_write located invariant inside rfl rfl rfl rfl ?_ ?_ ?_
      · rw [Bucket.full_tombstone, Finset.card_erase_of_mem present, duty]
        simp only [Standing.next, Duty.due]
        omega
      · simp only [Standing.next, Duty.due]
        omega
      · simp [Standing.next]
  | storeStamp bucketIdx slot stamp =>
      obtain rfl := (Prod.mk.inj (Option.some.inj performed)).2
      obtain ⟨_, ⟨fresh, duty⟩, _⟩ := allows
      refine counted_aside census rfl rfl rfl (fun _ holds => Or.inl holds) ?_ ?_
      · cases fresh <;> simp [Standing.next, duty, Duty.due]
      · cases fresh <;> simp [Standing.next, duty]
  | addCount =>
      obtain rfl := (Prod.mk.inj (Option.some.inj performed)).2
      obtain ⟨_, duty, _⟩ := allows
      refine ⟨?_, Or.inl rfl, ?_, by simp [Standing.next]⟩
      · simp only [Standing.next, duty, Duty.due]
        push_cast
        ring
      · simp [Standing.next, Duty.due]
  | subCount =>
      obtain rfl := (Prod.mk.inj (Option.some.inj performed)).2
      obtain ⟨⟨bucketIdx, inside⟩, duty⟩ := allows
      have positive := count_pos census located invariant inside duty
      refine ⟨?_, Or.inl rfl, ?_, by simp [Standing.next]⟩
      · simp only [Standing.next, duty, Duty.due]
        omega
      · simp [Standing.next, Duty.due]
  | storeCount count =>
      obtain rfl := (Prod.mk.inj (Option.some.inj performed)).2
      obtain ⟨inside, duty⟩ := allows
      have noReaders := invariant.exclusive thread (located.writes inside)
      have exact := census.count
      rw [tally_free (located.still noReaders)] at exact
      have stored := census.rebuilt thread count duty
      refine ⟨?_, Or.inl rfl, ?_, by simp [Standing.next]⟩
      · simp only [Standing.next, duty, Duty.due]
        omega
      · simp [Standing.next, Duty.due]
  | addEvictionCount =>
      obtain rfl := (Prod.mk.inj (Option.some.inj performed)).2
      refine counted_aside census rfl rfl rfl (fun _ holds => Or.inl holds) ?_ ?_
      · simp [Standing.next, allows.2, Duty.due]
      · simp [Standing.next]
  | addEpoch =>
      obtain rfl := (Prod.mk.inj (Option.some.inj performed)).2
      exact counted_aside census rfl rfl rfl (fun _ holds => Or.inl holds) rfl fun _ owes => owes
  | poison =>
      obtain rfl := (Prod.mk.inj (Option.some.inj performed)).2
      exact counted_aside census rfl rfl rfl (fun _ holds => Or.inl holds) rfl fun _ owes => owes
  | rehash newActual =>
      rcases rehash_act located invariant allows performed with ⟨rfl, rfl, _⟩ |
        ⟨rebuilt, rfl, rfl, rebuiltInvariant, actual, same, _, noReaders⟩
      · exact counted_aside census rfl rfl rfl (fun _ holds => Or.inl holds) rfl fun _ owes => owes
      have full : rebuilt.fullSlots = map.layout.fullSlots := by
        rw [← Layout.entries_length rebuiltInvariant, same.length_eq,
          Layout.entries_length invariant.layout]
      refine ⟨?_, Or.inl full, ?_, ?_⟩
      · simp only [Standing.next, allows.2.1, Duty.due, full]
      · intro bucketIdx holds
        cases holds
      · intro count owes
        have counted : map.layout.entries.length = count := by simpa [Standing.next] using owes
        rw [← counted, Layout.entries_length invariant.layout]
        exact full.symm
  | _ =>
      have same := perform_quiet (by trivial) performed
      apply counted_aside census same.count same.numBuckets same.buckets
      · rw [same.locks]
        exact fun _ holds => Or.inl holds
      · rcases Standing.duty_quiet (by trivial) response with still | ⟨slot, fresh, epoch, was, is⟩
        · rw [still]
        · rw [was, is]
          cases fresh <;> rfl
      · rcases Standing.duty_quiet (by trivial) response with still | ⟨slot, fresh, epoch, was, is⟩
        · rw [still]
          exact fun _ owes => owes
        · rw [is]
          simp

theorem census_act (census : Census places map) (located : Located places map)
    (invariant : map.Invariant config False) (later : after.Invariant config False)
    (allows : (places thread).Allows config action)
    (performed : map.perform config thread action = some (response, after)) :
    Census (Function.update places thread ((places thread).next action response)) after := by
  have counted := counted_act census located invariant allows performed
  have spares := spares_act located (fun writer writes => invariant.exclusive writer writes) allows
    performed
  have owed := tally_act Duty.due_in_buckets located invariant later allows performed
  refine ⟨?_, ?_, ?_⟩
  · have before := census.count
    have change := counted.count
    omega
  · intro bucketIdx other holds
    by_cases same : other = thread
    · subst same
      rw [Function.update_self]
      exact counted.covered bucketIdx holds
    · rw [Function.update_of_ne same]
      have held := (spares.locks other same bucketIdx).mp holds
      rw [spares.buckets other same bucketIdx held]
      exact census.covered bucketIdx other held
  · intro other count owes
    by_cases same : other = thread
    · subst same
      rw [Function.update_self] at owes
      exact counted.rebuilt count owes
    · rw [Function.update_of_ne same] at owes
      rcases counted.slots with still | reads
      · rw [still]
        exact census.rebuilt other count owes
      · have writes := located.writes ((located.shaped other).of_rebuilt owes)
        rw [invariant.exclusive other writes] at reads
        simp at reads

theorem census_start (census : Census places map) (located : Located places map)
    (idle : (places thread).Idle) (call : SyncCall) :
    Census (Function.update places thread (.start call)) map := by
  refine ⟨?_, ?_, ?_⟩
  · rw [tally_start located idle call]
    exact census.count
  · intro bucketIdx other holds
    by_cases same : other = thread
    · subst same
      exact absurd holds (located.unlocked (by simp [idle.1.1]))
    · rw [Function.update_of_ne same]
      exact census.covered bucketIdx other holds
  · intro other count owes
    by_cases same : other = thread
    · subst same
      rw [Function.update_self] at owes
      cases owes
    · rw [Function.update_of_ne same] at owes
      exact census.rebuilt other count owes

end Step

/-! ### The records of the calls -/

namespace SyncMap

def eventOf (map : SyncMap) : SyncAction → Option SyncEvent
  | .updateSlot _ _ _ key value => some (.insert key value none)
  | .placeSlot bucketIdx slot _ _ key value =>
      some (.insert key value ((map.layout.content bucketIdx slot).map Prod.fst))
  | .clearSlot _ _ key => some (.remove key true)
  | .commit event => some event
  | _ => none

def answerOf (map : SyncMap) (thread : Nat) : SyncAction → Option ReturnedCall
  | .finish request result => some ⟨thread, map.calls thread, request, result⟩
  | _ => none

def evictionsOf : SyncAction → Nat
  | .addEvictionCount => 1
  | _ => 0

structure Records (thread : Nat) (action : SyncAction) (map after : SyncMap) : Prop where
  history : after.history = map.history ++
    ((map.eventOf action).map fun event => ⟨thread, map.calls thread, event⟩).toList
  returned : after.returned = map.returned ++ (map.answerOf thread action).toList
  calls : (∀ request, action ≠ .begin request) → after.calls = map.calls
  others : ∀ other, other ≠ thread → after.calls other = map.calls other
  evicted : after.evictionCount = map.evictionCount + evictionsOf action

theorem records_act {config : SyncConfig} {thread : Nat} {action : SyncAction}
    {response : action.Response} {map after : SyncMap}
    (performed : map.perform config thread action = some (response, after)) :
    Records thread action map after := by
  cases action with
  | begin request =>
      obtain rfl := (Prod.mk.inj (Option.some.inj performed)).2
      exact ⟨by simp [eventOf], by simp [answerOf], fun other => absurd rfl (other request),
        fun other different => Function.update_of_ne different _ _, rfl⟩
  | readLock =>
      simp only [perform] at performed
      split_ifs at performed
      obtain rfl := (Prod.mk.inj (Option.some.inj performed)).2
      exact ⟨by simp [eventOf], by simp [answerOf], fun _ => rfl, fun _ _ => rfl, rfl⟩
  | writeLock =>
      simp only [perform] at performed
      split_ifs at performed
      obtain rfl := (Prod.mk.inj (Option.some.inj performed)).2
      exact ⟨by simp [eventOf], by simp [answerOf], fun _ => rfl, fun _ _ => rfl, rfl⟩
  | lockBucket bucketIdx =>
      simp only [perform] at performed
      split_ifs at performed <;> obtain rfl := (Prod.mk.inj (Option.some.inj performed)).2 <;>
        exact ⟨by simp [eventOf], by simp [answerOf], fun _ => rfl, fun _ _ => rfl, rfl⟩
  | slabLock =>
      simp only [perform] at performed
      split_ifs at performed
      obtain rfl := (Prod.mk.inj (Option.some.inj performed)).2
      exact ⟨by simp [eventOf], by simp [answerOf], fun _ => rfl, fun _ _ => rfl, rfl⟩
  | matchesKey guarded data key hr =>
      simp only [perform] at performed
      split_ifs at performed
      obtain rfl := (Prod.mk.inj (Option.some.inj performed)).2
      exact ⟨by simp [eventOf], by simp [answerOf], fun _ => rfl, fun _ _ => rfl, rfl⟩
  | slabKeyIs idx key =>
      simp only [perform] at performed
      split_ifs at performed
      obtain rfl := (Prod.mk.inj (Option.some.inj performed)).2
      exact ⟨by simp [eventOf], by simp [answerOf], fun _ => rfl, fun _ _ => rfl, rfl⟩
  | slabValue guarded data =>
      simp only [perform] at performed
      split_ifs at performed
      obtain rfl := (Prod.mk.inj (Option.some.inj performed)).2
      exact ⟨by simp [eventOf], by simp [answerOf], fun _ => rfl, fun _ _ => rfl, rfl⟩
  | slabFree bucketIdx slot idx =>
      simp only [perform] at performed
      split_ifs at performed
      obtain rfl := (Prod.mk.inj (Option.some.inj performed)).2
      exact ⟨by simp [eventOf, setTransit, setPool], by simp [answerOf, setTransit, setPool], fun _ => rfl,
        fun _ _ => rfl, rfl⟩
  | slabAlloc bucketIdx slot key value =>
      simp only [perform] at performed
      split_ifs at performed
      split at performed <;> obtain rfl := (Prod.mk.inj (Option.some.inj performed)).2 <;>
        exact ⟨by simp [eventOf, setTransit, setPool], by simp [answerOf, setTransit, setPool], fun _ => rfl,
          fun _ _ => rfl, rfl⟩
  | rehash newActual =>
      simp only [perform] at performed
      split at performed <;> obtain rfl := (Prod.mk.inj (Option.some.inj performed)).2 <;>
        exact ⟨by simp [eventOf], by simp [answerOf], fun _ => rfl, fun _ _ => rfl, rfl⟩
  | _ =>
      obtain rfl := (Prod.mk.inj (Option.some.inj performed)).2
      exact ⟨by simp [eventOf, writeSlot, record, setBucket, bufferAct],
        by simp [answerOf, writeSlot, record, setBucket, bufferAct], fun _ => rfl, fun _ _ => rfl, rfl⟩

end SyncMap

end PulseMap
