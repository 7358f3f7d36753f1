import PulseMap.Sync.Census

/-!
The counters of the map against the results of its calls: an eviction is counted before
its victim leaves the slot, and a removal that has cleared a slot will answer `true`.
-/

namespace PulseMap

open Finset

namespace Duty

/-- By how much the eviction counter is ahead of the evictions of the history. -/
def ahead : Duty → Int
  | clear => 0
  | evicting => 1
  | unstamped _ _ => 0
  | dated _ _ _ => 0
  | uncounted => 0
  | overcounted => 0
  | rebuilt _ => 0

theorem ahead_in_buckets : InBuckets ahead := ⟨rfl, fun _ => rfl⟩

end Duty

def SyncMap.removedTrue (map : SyncMap) : Nat :=
  map.returned.countP fun call => call.result = .removed true

structure Balance (places : Nat → Standing) (map : SyncMap) : Prop where
  census : Census places map
  evicted : (map.evictionCount : Int) = evictions map.history + tally Duty.ahead places map
  removed : ∃ unreturned : Finset Nat,
    (∀ thread, thread ∈ unreturned ↔ (places thread).removed = true) ∧
      removals map.history = map.removedTrue + unreturned.card
  recorded : ∀ thread, (places thread).removed = true →
    ∃ key, ⟨thread, map.calls thread, .remove key true⟩ ∈ map.history

section Step

variable {config : SyncConfig} {places : Nat → Standing} {map after : SyncMap} {thread : Nat}
  {action : SyncAction} {response : action.Response}

theorem count_records (records : SyncMap.Records thread action map after) (test : SyncEvent → Bool) :
    (after.history.countP fun entry => test entry.event) =
      (map.history.countP fun entry => test entry.event) +
        if (map.eventOf action).any test then 1 else 0 := by
  rw [records.history, List.countP_append]
  cases map.eventOf action with
  | none => rfl
  | some event => simp [List.countP_singleton]

/-- An eviction moves from the duty of its thread into the history. -/
theorem ahead_act (located : Located places map) (invariant : map.Invariant config False)
    (allows : (places thread).Allows config action) (response : action.Response) :
    (SyncMap.evictionsOf action : Int) + (places thread).duty.ahead =
      ((places thread).next action response).duty.ahead +
        if (map.eventOf action).any SyncEvent.displaces then 1 else 0 := by
  cases action with
  | updateSlot bucketIdx slot data key value =>
      simp [SyncMap.evictionsOf, SyncMap.eventOf, SyncEvent.displaces, Standing.next, allows.2.1,
        Duty.ahead]
  | placeSlot bucketIdx slot h2 data key value =>
      obtain ⟨inside, _, sees⟩ := allows
      have packed := meta_full_iff (invariant.layout.metaAgrees bucketIdx) slot
      rcases sees with ⟨duty, bucket, view, full⟩ | ⟨duty, bucket, view, full⟩
      · rw [located.view thread bucketIdx bucket (located.locks inside) view] at packed
        have vacant : map.layout.content bucketIdx slot = none := by
          simpa using (not_congr packed).mp full.mp
        simp [SyncMap.evictionsOf, SyncMap.eventOf, SyncEvent.displaces, Standing.next, vacant, duty,
          Duty.ahead]
      · rw [located.view thread bucketIdx bucket (located.locks inside) view] at packed
        obtain ⟨pair, held⟩ := Option.isSome_iff_exists.mp (packed.mp (full.mpr trivial))
        simp [SyncMap.evictionsOf, SyncMap.eventOf, SyncEvent.displaces, Standing.next, held, duty,
          Duty.ahead]
  | clearSlot bucketIdx slot key =>
      simp [SyncMap.evictionsOf, SyncMap.eventOf, SyncEvent.displaces, Standing.next, allows.2.1,
        Duty.ahead]
  | commit event =>
      have kept : event.displaces = false := by
        cases event with
        | insert key value victim => exact allows.elim
        | _ => rfl
      simp [SyncMap.evictionsOf, SyncMap.eventOf, Standing.next, kept]
  | addEvictionCount => simp [SyncMap.evictionsOf, SyncMap.eventOf, Standing.next, allows.2, Duty.ahead]
  | storeStamp bucketIdx slot stamp =>
      obtain ⟨_, ⟨fresh, duty⟩, _⟩ := allows
      cases fresh <;> simp [SyncMap.evictionsOf, SyncMap.eventOf, Standing.next, duty, Duty.ahead]
  | loadEpoch =>
      cases duty : (places thread).duty <;>
        simp [SyncMap.evictionsOf, SyncMap.eventOf, Standing.next, duty, Duty.ahead]
  | addCount =>
      simp [SyncMap.evictionsOf, SyncMap.eventOf, Standing.next, allows.2.1, Duty.ahead]
  | subCount => simp [SyncMap.evictionsOf, SyncMap.eventOf, Standing.next, allows.2, Duty.ahead]
  | storeCount count =>
      simp [SyncMap.evictionsOf, SyncMap.eventOf, Standing.next, allows.2, Duty.ahead]
  | rehash newActual =>
      rcases response with _ | _ | count <;>
        simp [SyncMap.evictionsOf, SyncMap.eventOf, Standing.next, allows.2.1, Duty.ahead]
  | lockBucket bucketIdx =>
      cases response <;> simp [SyncMap.evictionsOf, SyncMap.eventOf, Standing.next]
  | _ => simp [SyncMap.evictionsOf, SyncMap.eventOf, Standing.next]

theorem removed_act (allows : (places thread).Allows config action) (response : action.Response)
    (map : SyncMap) :
    ((places thread).next action response).removed = (places thread).removed ∧
        (map.eventOf action).any SyncEvent.removes = false ∧
        (map.answerOf thread action).all (fun call => call.result ≠ .removed true) ∨
      (∃ bucketIdx slot key, action = .clearSlot bucketIdx slot key) ∧
        (places thread).removed = false ∧
        ((places thread).next action response).removed = true ∨
      (∃ request, action = .finish request (.removed true)) ∧ (places thread).removed = true ∧
        ((places thread).next action response).removed = false := by
  cases action with
  | clearSlot bucketIdx slot key => exact Or.inr (Or.inl ⟨⟨_, _, _, rfl⟩, allows.2.2.2.2, rfl⟩)
  | finish request result =>
      obtain ⟨_, answers⟩ := allows
      by_cases removed : result = .removed true
      · subst removed
        exact Or.inr (Or.inr ⟨⟨request, rfl⟩, answers.mpr rfl, rfl⟩)
      · have kept : (places thread).removed = false := by simpa [removed] using answers
        refine Or.inl ⟨by simp [Standing.next, kept], rfl, ?_⟩
        simpa [SyncMap.answerOf] using removed
  | commit event =>
      refine Or.inl ⟨rfl, ?_, rfl⟩
      cases event with
      | insert key value victim => exact allows.elim
      | remove key found =>
          obtain rfl : found = false := allows
          rfl
      | _ => rfl
  | rehash newActual => rcases response with _ | _ | count <;> exact Or.inl ⟨rfl, rfl, rfl⟩
  | lockBucket bucketIdx => cases response <;> exact Or.inl ⟨rfl, rfl, rfl⟩
  | _ => exact Or.inl ⟨rfl, rfl, rfl⟩

theorem removed_true_records (records : SyncMap.Records thread action map after) :
    after.removedTrue = map.removedTrue +
      if (map.answerOf thread action).any (fun call => call.result = .removed true)
      then 1 else 0 := by
  rw [SyncMap.removedTrue, records.returned, List.countP_append]
  cases map.answerOf thread action with
  | none => rfl
  | some call => simp [SyncMap.removedTrue, List.countP_singleton]

def Unreturned (places : Nat → Standing) (unreturned : Finset Nat) : Prop :=
  ∀ thread, thread ∈ unreturned ↔ (places thread).removed = true

theorem unreturned_same {unreturned : Finset Nat} {place : Standing}
    (members : Unreturned places unreturned) (same : place.removed = (places thread).removed) :
    Unreturned (Function.update places thread place) unreturned := by
  intro other
  by_cases own : other = thread
  · subst own
    rw [Function.update_self, same]
    exact members other
  · rw [Function.update_of_ne own]
    exact members other

theorem unreturned_act {unreturned : Finset Nat} (members : Unreturned places unreturned)
    (total : removals map.history = map.removedTrue + unreturned.card)
    (allows : (places thread).Allows config action)
    (records : SyncMap.Records thread action map after) :
    ∃ later, Unreturned (Function.update places thread ((places thread).next action response)) later ∧
      removals after.history = after.removedTrue + later.card := by
  have removed : removals after.history = removals map.history +
      if (map.eventOf action).any SyncEvent.removes then 1 else 0 :=
    count_records records SyncEvent.removes
  have returned := removed_true_records records
  rcases removed_act allows response map with
    ⟨same, silent, other⟩ | ⟨⟨bucketIdx, slot, key, rfl⟩, before, now⟩ | ⟨⟨request, rfl⟩, before, now⟩
  · refine ⟨unreturned, unreturned_same members same, ?_⟩
    have none : (map.answerOf thread action).any (fun call => call.result = .removed true) = false := by
      cases answer : map.answerOf thread action with
      | none => rfl
      | some call => simpa [answer] using other
    rw [silent] at removed
    rw [none] at returned
    simp only [Bool.false_eq_true, if_false] at removed returned
    omega
  · have absent : thread ∉ unreturned := by simp [members thread, before]
    refine ⟨Insert.insert thread unreturned, ?_, ?_⟩
    · intro other
      by_cases own : other = thread
      · subst own
        simp [now]
      · simpa [own] using members other
    · rw [removed, returned, card_insert_of_notMem absent]
      simp [SyncMap.eventOf, SyncMap.answerOf, SyncEvent.removes]
      omega
  · have present : thread ∈ unreturned := (members thread).mpr before
    have fewer := card_erase_add_one present
    refine ⟨unreturned.erase thread, ?_, ?_⟩
    · intro other
      by_cases own : other = thread
      · subst own
        simp [now]
      · simpa [own] using members other
    · rw [removed, returned]
      simp [SyncMap.eventOf, SyncMap.answerOf]
      omega

theorem recorded_act
    (recorded : ∀ thread, (places thread).removed = true →
      ∃ key, ⟨thread, map.calls thread, .remove key true⟩ ∈ map.history)
    (allows : (places thread).Allows config action)
    (records : SyncMap.Records thread action map after) (other : Nat)
    (removed : (Function.update places thread ((places thread).next action response) other).removed =
      true) :
    ∃ key, ⟨other, after.calls other, .remove key true⟩ ∈ after.history := by
  by_cases own : other = thread
  · subst own
    rw [Function.update_self] at removed
    rcases removed_act allows response map with
      ⟨same, _⟩ | ⟨⟨bucketIdx, slot, key, rfl⟩, _⟩ | ⟨_, _, now⟩
    · have before : (places other).removed = true := same.symm.trans removed
      obtain ⟨key, member⟩ := recorded other before
      have calls : after.calls = map.calls := by
        apply records.calls
        rintro request rfl
        have unremoved : (places other).removed = false := allows
        simp [before] at unremoved
      rw [calls, records.history]
      exact ⟨key, List.mem_append_left _ member⟩
    · rw [records.calls (by simp), records.history]
      exact ⟨key, by simp [SyncMap.eventOf]⟩
    · rw [now] at removed
      cases removed
  · rw [Function.update_of_ne own] at removed
    obtain ⟨key, member⟩ := recorded other removed
    rw [records.others other own, records.history]
    exact ⟨key, List.mem_append_left _ member⟩

theorem balance_act (balance : Balance places map) (located : Located places map)
    (invariant : map.Invariant config False) (later : after.Invariant config False)
    (allows : (places thread).Allows config action)
    (performed : map.perform config thread action = some (response, after)) :
    Balance (Function.update places thread ((places thread).next action response)) after := by
  have records := SyncMap.records_act performed
  obtain ⟨unreturned, members, total⟩ := balance.removed
  refine ⟨census_act balance.census located invariant later allows performed, ?_,
    unreturned_act members total allows records, recorded_act balance.recorded allows records⟩
  have owed := tally_act Duty.ahead_in_buckets located invariant later allows performed
  have moved := ahead_act located invariant allows response
  have events : evictions after.history = evictions map.history +
      if (map.eventOf action).any SyncEvent.displaces then 1 else 0 :=
    count_records records SyncEvent.displaces
  have before := balance.evicted
  have counted := records.evicted
  rw [owed, counted, events]
  push_cast
  omega

theorem Balance.unlocked (balance : Balance places map) (located : Located places map)
    (invariant : map.Invariant config False) (noReaders : map.readers = ∅) :
    map.count = map.layout.fullSlots ∧ map.count ≤ 4 * map.layout.numBuckets ∧
      map.count + map.evictionCount + removals map.history = placements map.history := by
  have free := located.still noReaders
  have counted := balance.census.count
  have evicted := balance.evicted
  rw [tally_free free] at counted evicted
  have layoutInvariant := invariant.layout
  have settled : map.transit = Layout.still := by
    funext bucketIdx
    exact invariant.moving bucketIdx (free bucketIdx)
  rw [settled] at layoutInvariant
  have stored := Layout.full_slots_stored layoutInvariant invariant.reflects
  have placed := stored_keys_card invariant.recorded.legal
  have bounded := map.layout.full_slots_le
  omega

theorem balance_start (balance : Balance places map) (located : Located places map)
    (idle : (places thread).Idle) (call : SyncCall) :
    Balance (Function.update places thread (.start call)) map := by
  obtain ⟨unreturned, members, total⟩ := balance.removed
  refine ⟨census_start balance.census located idle call, ?_,
    ⟨unreturned, unreturned_same members idle.2.2.symm, total⟩, ?_⟩
  · rw [tally_start located idle call]
    exact balance.evicted
  · intro other removed
    by_cases own : other = thread
    · subst own
      rw [Function.update_self] at removed
      cases removed
    · rw [Function.update_of_ne own] at removed
      exact balance.recorded other removed

end Step

def balanceLedger (config : SyncConfig) : Ledger config where
  Assumed := fun _ => True
  Balanced := fun _ places map => Balance places map
  begins := fun _ _ _ _ call located balance idle => balance_start balance located idle call
  acts := fun _ _ _ _ _ _ _ located invariant later _ _ balance allows performed =>
    balance_act balance located invariant later allows performed

theorem balance_new (numBuckets : Nat) :
    Balance (fun _ => Standing.outside) (SyncMap.new numBuckets) where
  census :=
    { count := by
        rw [tally_free fun _ => rfl]
        simp [SyncMap.new, Layout.fullSlots, Layout.new, Layout.fresh, Bucket.fullSlots, Bucket.empty,
          MetaWord.get_state_empty]
      covered := by simp [SyncMap.new]
      rebuilt := by simp [Standing.outside] }
  evicted := by
    rw [tally_free fun _ => rfl]
    rfl
  removed := ⟨∅, by simp [Standing.outside], rfl⟩
  recorded := by simp [Standing.outside]

/-! ### The counters in every state -/

section States

variable {config : SyncConfig}

/-- The atomic counters of a state agree with its slots and with the results of the calls. -/
structure Accounted (system : System (syncMachine config)) : Prop where
  /-- No decrement underflows. -/
  decrements : ∀ thread next, system.programs thread = .act .subCount next →
    0 < SyncMap.count system.shared
  /-- The overwrite of a resize stores what the counter holds. -/
  overwrites : ∀ thread count next, system.programs thread = .act (.storeCount count) next →
    count = SyncMap.count system.shared
  /-- Outside the locks of the map the counter is the number of Full slots, and every key
  that was placed is stored, evicted or removed. -/
  unlocked : SyncMap.readers system.shared = ∅ → SyncMap.writer system.shared = none →
    SyncMap.count system.shared = (SyncMap.layout system.shared).fullSlots ∧
    SyncMap.count system.shared ≤ 4 * (SyncMap.layout system.shared).numBuckets ∧
    SyncMap.count system.shared + SyncMap.evictionCount system.shared +
      removals (SyncMap.history system.shared) = placements (SyncMap.history system.shared)
  /-- The removals are the calls that have returned `true` and those that have cleared
  their slot and have yet to return. -/
  answered : ∃ unreturned : Finset Nat,
    removals (SyncMap.history system.shared) =
      SyncMap.removedTrue system.shared + unreturned.card ∧
    ∀ thread ∈ unreturned, (system.programs thread).finished = false ∧
      ∃ key, ⟨thread, SyncMap.calls system.shared thread, .remove key true⟩ ∈
        SyncMap.history system.shared
  /-- Between the calls only the returned ones are left. -/
  settled : (∀ thread, (system.programs thread).finished = true) →
    SyncMap.count system.shared = (SyncMap.layout system.shared).fullSlots ∧
    SyncMap.count system.shared + SyncMap.evictionCount system.shared +
      SyncMap.removedTrue system.shared = placements (SyncMap.history system.shared)

theorem idle_of_finished {program : SyncProgram config Unit} {place : Standing}
    (conducts : SyncProgram.Conducts program (fun _ => Standing.Idle) place)
    (finished : program.finished = true) : place.Idle := by
  cases program with
  | done result => exact conducts
  | panic => cases finished
  | act action next => cases finished

theorem counters_accounted (config : SyncConfig) (numBuckets : Nat)
    (small : numBuckets ≤ SyncMap.maxBuckets) (moves : SyncMoves) (sized : moves.Sized) :
    Accounted (syncRun config numBuckets moves) := by
  obtain ⟨places, conducts, located, balance⟩ := ledger_run (balanceLedger config) small moves sized
    (fun _ _ _ => trivial) (balance_new numBuckets)
  have invariant := (sync_run_holds config False small moves sized False.elim).invariant
  have balanced : Balance places (syncRun config numBuckets moves).shared := balance
  obtain ⟨unreturned, members, total⟩ := balanced.removed
  have unlocked := balanced.unlocked located invariant
  refine ⟨?_, ?_, fun noReaders _ => unlocked noReaders, ⟨unreturned, total, ?_⟩, ?_⟩
  · intro thread next program
    have own := conducts thread
    rw [program] at own
    obtain ⟨⟨⟨bucketIdx, inside⟩, duty⟩, _⟩ := own
    exact count_pos balanced.census located invariant inside duty
  · intro thread count next program
    have own := conducts thread
    rw [program] at own
    obtain ⟨⟨inside, duty⟩, _⟩ := own
    have noReaders := invariant.exclusive thread (located.writes inside)
    have counted := balanced.census.rebuilt thread count duty
    exact counted.trans (unlocked noReaders).1.symm
  · intro thread member
    have removed := (members thread).mp member
    refine ⟨?_, balanced.recorded thread removed⟩
    rw [Bool.eq_false_iff]
    intro finished
    have idle := idle_of_finished (conducts thread) finished
    rw [idle.2.2] at removed
    cases removed
  · intro finished
    have idle : ∀ thread, (places thread).Idle :=
      fun thread => idle_of_finished (conducts thread) (finished thread)
    have noReaders : SyncMap.readers (syncRun config numBuckets moves).shared = ∅ := by
      ext thread
      rw [← located.reading thread, (idle thread).1.1]
      simp
    have noneLeft : unreturned = ∅ := by
      ext thread
      rw [members thread, (idle thread).2.2]
      simp
    obtain ⟨counted, _, placed⟩ := unlocked noReaders
    rw [noneLeft, card_empty, add_zero] at total
    rw [total] at placed
    exact ⟨counted, placed⟩

theorem counters_accounted_remove :
    let moves : SyncMoves := .call 0 (.insert [7] [70] 0) :: .call 1 (.remove [7]) ::
      List.replicate 20 (.step 0) ++ List.replicate 20 (.step 1)
    moves.Sized ∧ Accounted (syncRun ⟨false, false, fun _ => 0⟩ 1 moves) := by
  intro moves
  have sized : moves.Sized := by
    intro thread call member
    simp only [moves, List.cons_append, List.mem_cons, Move.call.injEq, List.mem_append,
      List.mem_replicate, reduceCtorEq, and_false, or_false] at member
    rcases member with ⟨_, rfl⟩ | ⟨_, rfl⟩
    · change 1 + 1 < 2 ^ 32
      decide
    · trivial
  exact ⟨sized, counters_accounted _ 1 (by decide) moves sized⟩

end States

end PulseMap
