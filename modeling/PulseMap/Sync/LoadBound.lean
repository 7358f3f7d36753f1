import PulseMap.Sync.Counters
import PulseMap.Sync.Stamps

/-!
The load of a map that resizes itself. A thread that has passed its load test adds one key
at most before it returns, so the map is over its threshold by no more than the number of
inserting threads, and a rebuilt map has room for all of them again.
-/

namespace PulseMap

open Finset

variable {config : SyncConfig}

/-! ### Load tests in the trace -/

/-- What the trace tells of the load tests: the bucket count each thread has read last, the
one its insert has found overloaded, those that the map was grown for, and the threads
inside an insert. -/
structure Observed where
  size : Nat → Option Nat
  heavy : Nat → Option Nat
  grown : List Nat
  inserting : Finset Nat

namespace Observed

def start : Observed := ⟨fun _ => none, fun _ => none, [], ∅⟩

def act (self : Observed) (thread : Nat) : (action : SyncAction) → action.Response → Observed
  | .readLayout, (numBuckets, _) =>
      { self with size := Function.update self.size thread (some numBuckets) }
  | .loadCount, len =>
      let overloaded (numBuckets : Nat) : Bool := 3 * (numBuckets * 4) < 4 * len
      { self with heavy := Function.update self.heavy thread ((self.size thread).filter overloaded) }
  | .rehash _, answer =>
      match answer with
      | some (some _) => { self with grown := self.grown ++ (self.heavy thread).toList }
      | _ => self
  | .finish _ _, _ => { self with inserting := self.inserting.erase thread }
  | _, _ => self

def call (self : Observed) (thread : Nat) (request : SyncCall) : Observed :=
  { self with
    heavy := Function.update self.heavy thread none
    inserting := if request.isInsert then insert thread self.inserting
      else self.inserting.erase thread }

def note (self : Observed) : Event (syncMachine config) SyncCall → Observed
  | .called thread request => self.call thread request
  | .acted thread action response => self.act thread action response

end Observed

def observed (past : SyncEvents config) : Observed := past.foldl Observed.note .start

theorem observed_append (past : SyncEvents config) (event : Event (syncMachine config) SyncCall) :
    observed (past ++ [event]) = (observed past).note event := by
  simp [observed]

/-- At no time more threads are inside an insert. -/
def Busy (threads : Nat) (past : SyncEvents config) : Prop :=
  ∀ front, front <+: past → (observed front).inserting.card ≤ threads

theorem Busy.past {threads : Nat} {past : SyncEvents config}
    {event : Event (syncMachine config) SyncCall} (busy : Busy threads (past ++ [event])) :
    Busy threads past :=
  fun front before => busy front (before.trans (List.prefix_append past [event]))

theorem Busy.now {threads : Nat} {past : SyncEvents config} (busy : Busy threads past) :
    (observed past).inserting.card ≤ threads := busy past (List.prefix_refl past)

theorem inserting_called {past : SyncEvents config} {thread : Nat}
    (member : thread ∈ (observed past).inserting) :
    ∃ request, request.isInsert = true ∧ .called thread request ∈ past := by
  induction past using List.reverseRecOn with
  | nil => cases member
  | append_singleton past last induction =>
      rw [observed_append] at member
      cases last with
      | called other request =>
          simp only [Observed.note, Observed.call] at member
          split_ifs at member with inserts
          · rcases mem_insert.mp member with rfl | before
            · exact ⟨request, inserts, by simp⟩
            · obtain ⟨earlier, insert, found⟩ := induction before
              exact ⟨earlier, insert, List.mem_append_left _ found⟩
          · obtain ⟨earlier, insert, found⟩ := induction (mem_of_mem_erase member)
            exact ⟨earlier, insert, List.mem_append_left _ found⟩
      | acted other action response =>
          have before : thread ∈ (observed past).inserting := by
            change thread ∈ ((observed past).act other action response).inserting at member
            cases action with
            | finish request result => exact mem_of_mem_erase member
            | rehash newActual => rcases response with _ | _ | count <;> exact member
            | _ => exact member
          obtain ⟨earlier, insert, found⟩ := induction before
          exact ⟨earlier, insert, List.mem_append_left _ found⟩

theorem busy_of_callers {past : SyncEvents config} (callers : Finset Nat)
    (calls : ∀ thread request, request.isInsert = true → .called thread request ∈ past →
      thread ∈ callers) : Busy callers.card past := by
  intro front before
  apply card_le_card
  intro thread member
  obtain ⟨request, inserts, found⟩ := inserting_called member
  exact calls thread request inserts (before.subset found)

/-! ### Threads that are past their load test -/

namespace LoadTest

def Tested : LoadTest → Prop
  | untested => False
  | sized _ => False
  | light => True
  | heavy _ => True
  | eased _ => True

/-- The thread may add a key without another test: the load was light, or the map has grown
since it was found overloaded. -/
def Pending (size : Nat) : LoadTest → Prop
  | untested => False
  | sized _ => False
  | light => True
  | heavy seen => seen < size
  | eased _ => True

theorem Pending.tested {load : LoadTest} {size : Nat} (pending : load.Pending size) : load.Tested := by
  cases load <;> trivial

theorem Passed.pending {load : LoadTest} (size : Nat) (passed : load.Passed) : load.Pending size := by
  cases load <;> trivial

end LoadTest

structure Watched (seen : Observed) (map : SyncMap) (thread : Nat) (place : Standing) : Prop where
  inserting : (∃ key value, place.Inserts key value) → thread ∈ seen.inserting
  tested : place.load.Tested → ∃ key value, place.Inserts key value
  size : ∀ size, thread ∈ map.readers → place.size = some size → seen.size thread = some size
  heavy : ∀ size, place.load = .heavy size →
    seen.heavy thread = some size ∧ size ≤ map.layout.numBuckets
  wanted : ∀ wanted, place.call = some (.resize wanted) → seen.heavy thread = none

structure Watching (past : SyncEvents config) (places : Nat → Standing) (map : SyncMap) : Prop where
  threads : ∀ thread, Watched (observed past) map thread (places thread)
  grown : ∀ size ∈ (observed past).grown,
    LoadTest.target size ≤ map.layout.numBuckets ∧ 2 * size ≤ map.layout.numBuckets
  once : (observed past).grown.Nodup

section Step

variable {past : SyncEvents config} {places : Nat → Standing} {map after : SyncMap} {thread : Nat}
  {action : SyncAction} {response : action.Response} {place : Standing} {seen later : Observed}

theorem watched_other {other : Nat} (watched : Watched seen map other place)
    (readers : other ∈ after.readers → other ∈ map.readers)
    (grows : map.layout.numBuckets ≤ after.layout.numBuckets)
    (size : later.size other = seen.size other) (heavy : later.heavy other = seen.heavy other)
    (inserting : other ∈ seen.inserting → other ∈ later.inserting) :
    Watched later after other place where
  inserting := fun inserts => inserting (watched.inserting inserts)
  tested := watched.tested
  size := by
    intro number reads read
    rw [size]
    exact watched.size number (readers reads) read
  heavy := by
    intro number found
    rw [heavy]
    obtain ⟨same, small⟩ := watched.heavy number found
    exact ⟨same, Nat.le_trans small grows⟩
  wanted := by
    intro wanted called
    rw [heavy]
    exact watched.wanted wanted called

theorem watched_own {next : Standing} (watched : Watched seen map thread place)
    (readers : thread ∈ after.readers → thread ∈ map.readers ∨ next.size = none)
    (grows : after.layout.numBuckets = map.layout.numBuckets) (call : next.call = place.call)
    (load : next.load = place.load) (size : next.size = place.size ∨ next.size = none) :
    Watched seen after thread next where
  inserting := by
    rintro ⟨key, value, ttl, called⟩
    exact watched.inserting ⟨key, value, ttl, call.symm.trans called⟩
  tested := by
    rw [load]
    intro tested
    obtain ⟨key, value, ttl, called⟩ := watched.tested tested
    exact ⟨key, value, ttl, call.trans called⟩
  size := by
    intro number reads read
    rcases size with same | none
    · rcases readers reads with before | none
      · exact watched.size number before (same.symm.trans read)
      · rw [none] at read
        cases read
    · rw [none] at read
      cases read
  heavy := by
    rw [load, grows]
    exact watched.heavy
  wanted := by
    rw [call]
    exact watched.wanted

theorem watched_load_count (located : Located places map)
    (watched : Watched seen map thread (places thread))
    (allows : (places thread).Allows config .loadCount) (len : Nat) :
    Watched (seen.act thread .loadCount len) map thread ((places thread).next .loadCount len) := by
  rcases allows with ⟨idle, untested⟩ | ⟨held, inserts, numBuckets, read, sized⟩
  · have load : ((places thread).next .loadCount len).load = .untested := by
      simp [Standing.next, untested, LoadTest.onCount]
    refine ⟨watched.inserting, ?_, watched.size, ?_, ?_⟩
    · rw [load]
      exact False.elim
    · rw [load]
      exact fun number found => by cases found
    · intro wanted called
      have none : (places thread).call = some (.resize wanted) := called
      rw [idle] at none
      cases none
  · have reads : thread ∈ map.readers := by
      rw [← located.reading thread, held]
      exact List.mem_singleton_self _
    have current := located.size thread numBuckets (Or.inl reads) read
    have known := watched.size numBuckets reads read
    refine ⟨watched.inserting, fun _ => inserts, watched.size, ?_, ?_⟩
    · intro number found
      have load : LoadTest.onCount (.sized numBuckets) len = .heavy number := by
        rw [← sized]
        exact found
      simp only [LoadTest.onCount] at load
      split_ifs at load with overloaded
      obtain rfl := LoadTest.heavy.inj load
      refine ⟨?_, current.ge⟩
      simp [Observed.act, known, overloaded]
    · intro wanted called
      obtain ⟨key, value, ttl, insert⟩ := inserts
      have resize : (places thread).call = some (.resize wanted) := called
      rw [insert] at resize
      cases resize

theorem watched_act (located : Located places map) (invariant : map.Invariant config False)
    (watched : Watched seen map thread (places thread))
    (allows : (places thread).Allows config action)
    (performed : map.perform config thread action = some (response, after)) :
    Watched (seen.act thread action response) after thread
      ((places thread).next action response) := by
  cases action with
  | readLock =>
      simp only [SyncMap.perform] at performed
      split_ifs at performed
      obtain rfl := (Prod.mk.inj (Option.some.inj performed)).2
      exact watched_own watched (fun _ => Or.inr rfl) rfl rfl rfl (Or.inr rfl)
  | writeLock =>
      simp only [SyncMap.perform] at performed
      split_ifs at performed
      obtain rfl := (Prod.mk.inj (Option.some.inj performed)).2
      exact watched_own watched Or.inl rfl rfl rfl (Or.inr rfl)
  | readUnlock =>
      obtain rfl := (Prod.mk.inj (Option.some.inj performed)).2
      refine ⟨watched.inserting, ?_, ?_, ?_, watched.wanted⟩
      · intro tested
        apply watched.tested
        change (places thread).load.onLeave.Tested at tested
        cases load : (places thread).load <;> simp_all [LoadTest.onLeave, LoadTest.Tested]
      · intro number reads
        simp at reads
      · intro number found
        apply watched.heavy
        change (places thread).load.onLeave = .heavy number at found
        cases load : (places thread).load <;> simp_all [LoadTest.onLeave]
  | writeUnlock =>
      obtain rfl := (Prod.mk.inj (Option.some.inj performed)).2
      exact watched_own watched Or.inl rfl rfl rfl (Or.inl rfl)
  | poison =>
      obtain rfl := (Prod.mk.inj (Option.some.inj performed)).2
      exact watched_own watched Or.inl rfl rfl rfl (Or.inl rfl)
  | readLayout =>
      obtain ⟨rfl, rfl⟩ := Prod.mk.inj (Option.some.inj performed)
      refine ⟨watched.inserting, ?_, ?_, ?_, watched.wanted⟩
      · intro tested
        apply watched.tested
        change ((places thread).load.onSize map.layout.numBuckets).Tested at tested
        cases load : (places thread).load <;>
          simp_all [LoadTest.onSize, LoadTest.Tested]
      · intro number _ read
        rw [← Option.some.inj read]
        exact Function.update_self _ _ _
      · intro number found
        apply watched.heavy
        change (places thread).load.onSize map.layout.numBuckets = .heavy number at found
        cases load : (places thread).load with
        | heavy size =>
            simp only [load, LoadTest.onSize] at found
            split_ifs at found
            exact found
        | _ => simp [load, LoadTest.onSize] at found
  | lockBucket bucketIdx =>
      simp only [SyncMap.perform] at performed
      split_ifs at performed <;> obtain ⟨rfl, rfl⟩ := Prod.mk.inj (Option.some.inj performed) <;>
        exact watched_own watched Or.inl rfl rfl rfl (Or.inl rfl)
  | loadCount =>
      obtain ⟨rfl, rfl⟩ := Prod.mk.inj (Option.some.inj performed)
      exact watched_load_count located watched allows map.count
  | finish request result =>
      obtain rfl := (Prod.mk.inj (Option.some.inj performed)).2
      refine ⟨?_, False.elim, watched.size, ?_, ?_⟩
      · rintro ⟨key, value, ttl, called⟩
        cases called
      · exact fun number found => by cases found
      · exact fun wanted called => by cases called
  | addCount =>
      obtain rfl := (Prod.mk.inj (Option.some.inj performed)).2
      refine ⟨watched.inserting, False.elim, watched.size, ?_, watched.wanted⟩
      exact fun number found => by cases found
  | rehash newActual =>
      obtain ⟨rfl, rfl, _⟩ | ⟨rebuilt, rfl, rfl, _, actual, _, grows, noReaders⟩ :=
        rehash_act located invariant allows performed
      · exact watched_own watched Or.inl rfl rfl rfl (Or.inl rfl)
      refine ⟨watched.inserting, ?_, ?_, ?_, watched.wanted⟩
      · intro tested
        apply watched.tested
        change (places thread).load.onGrowth.Tested at tested
        cases load : (places thread).load <;> simp_all [LoadTest.onGrowth, LoadTest.Tested]
      · intro number reads
        rw [show map.readers = ∅ from noReaders] at reads
        cases reads
      · intro number found
        change (places thread).load.onGrowth = .heavy number at found
        cases load : (places thread).load <;> simp [load, LoadTest.onGrowth] at found
  | unlockBucket bucketIdx =>
      obtain rfl := (Prod.mk.inj (Option.some.inj performed)).2
      exact watched_own watched Or.inl rfl rfl rfl (Or.inl rfl)
  | onAccess bucketIdx slot =>
      obtain rfl := (Prod.mk.inj (Option.some.inj performed)).2
      exact watched_own watched Or.inl rfl rfl rfl (Or.inl rfl)
  | updateSlot bucketIdx slot data key value =>
      obtain rfl := (Prod.mk.inj (Option.some.inj performed)).2
      exact watched_own watched Or.inl rfl rfl rfl (Or.inl rfl)
  | placeSlot bucketIdx slot h2 data key value =>
      obtain rfl := (Prod.mk.inj (Option.some.inj performed)).2
      exact watched_own watched Or.inl rfl rfl rfl (Or.inl rfl)
  | clearSlot bucketIdx slot key =>
      obtain rfl := (Prod.mk.inj (Option.some.inj performed)).2
      exact watched_own watched Or.inl rfl rfl rfl (Or.inl rfl)
  | storeStamp bucketIdx slot stamp =>
      obtain rfl := (Prod.mk.inj (Option.some.inj performed)).2
      exact watched_own watched Or.inl rfl rfl rfl (Or.inl rfl)
  | subCount =>
      obtain rfl := (Prod.mk.inj (Option.some.inj performed)).2
      exact watched_own watched Or.inl rfl rfl rfl (Or.inl rfl)
  | storeCount count =>
      obtain rfl := (Prod.mk.inj (Option.some.inj performed)).2
      exact watched_own watched Or.inl rfl rfl rfl (Or.inl rfl)
  | addEvictionCount =>
      obtain rfl := (Prod.mk.inj (Option.some.inj performed)).2
      exact watched_own watched Or.inl rfl rfl rfl (Or.inl rfl)
  | addEpoch =>
      obtain rfl := (Prod.mk.inj (Option.some.inj performed)).2
      exact watched_own watched Or.inl rfl rfl rfl (Or.inl rfl)
  | _ =>
      have same := perform_quiet (by trivial) performed
      refine watched_own watched ?_ same.numBuckets rfl rfl (Or.inl rfl)
      rw [same.readers]
      exact Or.inl

theorem grown_act (located : Located places map) (invariant : map.Invariant config False)
    (watched : Watched seen map thread (places thread))
    (grown : ∀ size ∈ seen.grown,
      LoadTest.target size ≤ map.layout.numBuckets ∧ 2 * size ≤ map.layout.numBuckets)
    (once : seen.grown.Nodup) (allows : (places thread).Allows config action)
    (performed : map.perform config thread action = some (response, after)) :
    (∀ size ∈ (seen.act thread action response).grown,
      LoadTest.target size ≤ after.layout.numBuckets ∧ 2 * size ≤ after.layout.numBuckets) ∧
      (seen.act thread action response).grown.Nodup := by
  cases action with
  | rehash newActual =>
      have writes := located.writes allows.1
      obtain ⟨_, _, _, size, read, _, reason⟩ := id allows
      obtain ⟨rfl, rfl, _⟩ | ⟨rebuilt, rfl, rfl, _, actual, _, grows, noReaders⟩ :=
        rehash_act located invariant allows performed
      · exact ⟨grown, once⟩
      have current := located.size thread size (Or.inr writes) read
      rcases reason with ⟨wanted, called⟩ | ⟨number, found, less, enough⟩
      · have none := watched.wanted wanted called
        simp only [Observed.act, none, Option.toList_none, List.append_nil]
        refine ⟨fun number member => ?_, once⟩
        have before := grown number member
        omega
      · obtain ⟨known, fewer⟩ := watched.heavy number found
        have twice := LoadTest.target_gt (fewer.trans (Layout.bucket_bound invariant.layout))
        simp only [Observed.act, known, Option.toList_some]
        refine ⟨?_, ?_⟩
        · intro other member
          rcases List.mem_append.mp member with old | new
          · have before := grown other old
            omega
          · rw [List.mem_singleton.mp new]
            omega
        · rw [List.nodup_append]
          refine ⟨once, List.nodup_singleton _, ?_⟩
          intro other old another new same
          rw [same, List.mem_singleton.mp new] at old
          have before := grown number old
          omega
  | _ =>
      rw [size_kept (by simp) performed]
      exact ⟨grown, once⟩

theorem size_grows (located : Located places map) (invariant : map.Invariant config False)
    (allows : (places thread).Allows config action)
    (performed : map.perform config thread action = some (response, after)) :
    map.layout.numBuckets ≤ after.layout.numBuckets := by
  by_cases kept : ∀ newActual, action ≠ .rehash newActual
  · exact (size_kept kept performed).ge
  · push Not at kept
    obtain ⟨newActual, rfl⟩ := kept
    obtain ⟨rfl, rfl, _⟩ | ⟨rebuilt, rfl, rfl, _, actual, _, grows, _⟩ :=
      rehash_act located invariant allows performed
    · exact le_rfl
    exact Nat.le_trans grows.le actual.ge

theorem watching_act (watching : Watching past places map) (located : Located places map)
    (invariant : map.Invariant config False) (allows : (places thread).Allows config action)
    (performed : map.perform config thread action = some (response, after)) :
    Watching (past ++ [.acted thread action response])
      (Function.update places thread ((places thread).next action response)) after := by
  have noted : observed (past ++ [.acted thread action response]) =
      (observed past).act thread action response := observed_append past _
  obtain ⟨grown, once⟩ := grown_act located invariant (watching.threads thread) watching.grown
    watching.once allows performed
  have spares := spares_act located (fun writer writes => invariant.exclusive writer writes) allows
    performed
  refine ⟨?_, ?_, ?_⟩
  · intro other
    rw [noted]
    by_cases own : other = thread
    · subst own
      rw [Function.update_self]
      exact watched_act located invariant (watching.threads other) allows performed
    · rw [Function.update_of_ne own]
      apply watched_other (watching.threads other)
      · exact (spares.readers other own).mp
      · exact size_grows located invariant allows performed
      · cases action <;> first | rfl | exact Function.update_of_ne own _ _ | skip
        rcases response with _ | _ | count <;> rfl
      · cases action <;> first | rfl | exact Function.update_of_ne own _ _ | skip
        rcases response with _ | _ | count <;> rfl
      · cases action <;> first | exact id | exact mem_erase_of_ne_of_mem own | skip
        rcases response with _ | _ | count <;> exact id
  · rw [noted]
    exact grown
  · rw [noted]
    exact once

theorem watching_start (watching : Watching past places map) (call : SyncCall) :
    Watching (past ++ [.called thread call]) (Function.update places thread (.start call)) map := by
  have noted : observed (past ++ [.called thread call]) = (observed past).call thread call :=
    observed_append past _
  refine ⟨?_, ?_, ?_⟩
  · intro other
    rw [noted]
    by_cases own : other = thread
    · subst own
      rw [Function.update_self]
      refine ⟨?_, False.elim, ?_, ?_, ?_⟩
      · rintro ⟨key, value, ttl, called⟩
        obtain rfl := Option.some.inj called
        exact mem_insert_self other _
      · exact fun size _ read => by cases read
      · exact fun size found => by cases found
      · exact fun wanted _ => Function.update_self _ _ _
    · rw [Function.update_of_ne own]
      apply watched_other (watching.threads other) id le_rfl
      · rfl
      · exact Function.update_of_ne own _ _
      · intro member
        simp only [Observed.call]
        split_ifs
        · exact mem_insert_of_mem member
        · exact mem_erase_of_ne_of_mem own member
  · rw [noted]
    exact watching.grown
  · rw [noted]
    exact watching.once

/-! ### The reserve -/

/-- The keys that may still be added without a load test have a reserve. -/
def Reserved (threads : Nat) (places : Nat → Standing) (map : SyncMap) : Prop :=
  ∃ pending : Finset Nat,
    (∀ thread, thread ∈ pending ↔ (places thread).load.Pending map.layout.numBuckets) ∧
    4 * (map.count + pending.card) ≤ 3 * (4 * map.layout.numBuckets) + 4 * threads

variable {threads : Nat}

theorem reserved_afresh (watching : Watching past places map) (busy : Busy threads past)
    (room : 4 * map.count ≤ 3 * (4 * map.layout.numBuckets)) : Reserved threads places map := by
  classical
  let pending := (observed past).inserting.filter fun thread =>
    (places thread).load.Pending map.layout.numBuckets
  have few : pending.card ≤ threads := Nat.le_trans (card_filter_le _ _) busy.now
  refine ⟨pending, ?_, by omega⟩
  intro thread
  simp only [pending, mem_filter, and_iff_right_iff_imp]
  intro due
  have watched := watching.threads thread
  exact watched.inserting (watched.tested due.tested)

theorem reserved_less {others : Nat → Standing} (reserved : Reserved threads places map)
    (count : after.count ≤ map.count) (size : after.layout.numBuckets = map.layout.numBuckets)
    (fewer : ∀ thread, (others thread).load.Pending map.layout.numBuckets →
      (places thread).load.Pending map.layout.numBuckets) : Reserved threads others after := by
  classical
  obtain ⟨pending, members, bound⟩ := reserved
  let left := pending.filter fun thread => (others thread).load.Pending map.layout.numBuckets
  have few : left.card ≤ pending.card := card_filter_le _ _
  refine ⟨left, ?_, ?_⟩
  · intro thread
    rw [size]
    simp only [left, mem_filter, members, and_iff_right_iff_imp]
    exact fewer thread
  · rw [size]
    omega

theorem reserved_aside (reserved : Reserved threads places map) (count : after.count ≤ map.count)
    (size : after.layout.numBuckets = map.layout.numBuckets)
    (fewer : place.load.Pending map.layout.numBuckets →
      (places thread).load.Pending map.layout.numBuckets) :
    Reserved threads (Function.update places thread place) after := by
  apply reserved_less reserved count size
  intro other due
  by_cases own : other = thread
  · subst own
    rw [Function.update_self] at due
    exact fewer due
  · rwa [Function.update_of_ne own] at due

theorem reserved_add (reserved : Reserved threads places map)
    (due : (places thread).load.Pending map.layout.numBuckets) (untested : place.load = .untested) :
    Reserved threads (Function.update places thread place) { map with count := map.count + 1 } := by
  obtain ⟨pending, members, bound⟩ := reserved
  have fewer := card_erase_add_one ((members thread).mpr due)
  refine ⟨pending.erase thread, ?_, ?_⟩
  · intro other
    by_cases own : other = thread
    · subst own
      simp [untested, LoadTest.Pending]
    · simpa [own] using members other
  · change 4 * (map.count + 1 + (pending.erase thread).card) ≤
      3 * (4 * map.layout.numBuckets) + 4 * threads
    omega

theorem count_kept (added : action ≠ .addCount) (subtracted : action ≠ .subCount)
    (stored : ∀ count, action ≠ .storeCount count)
    (performed : map.perform config thread action = some (response, after)) :
    after.count = map.count := by
  cases action with
  | addCount => exact absurd rfl added
  | subCount => exact absurd rfl subtracted
  | storeCount count => exact absurd rfl (stored count)
  | readLock =>
      simp only [SyncMap.perform] at performed
      split_ifs at performed
      obtain rfl := (Prod.mk.inj (Option.some.inj performed)).2
      rfl
  | writeLock =>
      simp only [SyncMap.perform] at performed
      split_ifs at performed
      obtain rfl := (Prod.mk.inj (Option.some.inj performed)).2
      rfl
  | lockBucket bucketIdx =>
      simp only [SyncMap.perform] at performed
      split_ifs at performed <;> obtain rfl := (Prod.mk.inj (Option.some.inj performed)).2 <;> rfl
  | rehash newActual =>
      simp only [SyncMap.perform] at performed
      split at performed <;> obtain rfl := (Prod.mk.inj (Option.some.inj performed)).2 <;> rfl
  | _ =>
      first
      | exact (perform_quiet (by trivial) performed).count
      | obtain rfl := (Prod.mk.inj (Option.some.inj performed)).2
        rfl

theorem reserved_act (automatic : config.autoResize) (reserved : Reserved threads places map)
    (balance : Balance places map) (watching : Watching past places map)
    (located : Located places map) (invariant : map.Invariant config False)
    (later : Watching (past ++ [.acted thread action response])
      (Function.update places thread ((places thread).next action response)) after)
    (busy : Busy threads (past ++ [.acted thread action response]))
    (allows : (places thread).Allows config action)
    (performed : map.perform config thread action = some (response, after)) :
    Reserved threads (Function.update places thread ((places thread).next action response)) after := by
  cases action with
  | loadCount =>
      obtain ⟨rfl, rfl⟩ := Prod.mk.inj (Option.some.inj performed)
      rcases allows with ⟨_, untested⟩ | ⟨held, _, numBuckets, read, sized⟩
      · apply reserved_aside reserved le_rfl rfl
        simp [Standing.next, untested, LoadTest.onCount]
      · have reads : thread ∈ map.readers := by
          rw [← located.reading thread, held]
          exact List.mem_singleton_self _
        have current := located.size thread numBuckets (Or.inl reads) read
        by_cases overloaded : 3 * (numBuckets * 4) < 4 * map.count
        · apply reserved_aside reserved le_rfl rfl
          simp [Standing.next, sized, LoadTest.onCount, overloaded, LoadTest.Pending, current]
        · apply reserved_afresh later busy
          omega
  | readLayout =>
      obtain ⟨rfl, rfl⟩ := Prod.mk.inj (Option.some.inj performed)
      apply reserved_aside reserved le_rfl rfl
      intro due
      change ((places thread).load.onSize map.layout.numBuckets).Pending _ at due
      cases load : (places thread).load with
      | heavy size =>
          simp only [load, LoadTest.onSize] at due
          split_ifs at due with enough
          · have fewer := ((watching.threads thread).heavy size load).2
            have larger := LoadTest.target_gt (fewer.trans (Layout.bucket_bound invariant.layout))
            exact Nat.lt_of_lt_of_le larger.2 enough
          · exact due
      | light => trivial
      | eased size => trivial
      | untested => simp [load, LoadTest.onSize, LoadTest.Pending] at due
      | sized size => simp [load, LoadTest.onSize, LoadTest.Pending] at due
  | readUnlock =>
      obtain rfl := (Prod.mk.inj (Option.some.inj performed)).2
      apply reserved_aside reserved le_rfl rfl
      intro due
      change (places thread).load.onLeave.Pending _ at due
      cases load : (places thread).load <;> simp_all [LoadTest.onLeave, LoadTest.Pending]
  | finish request result =>
      obtain rfl := (Prod.mk.inj (Option.some.inj performed)).2
      exact reserved_aside reserved le_rfl rfl False.elim
  | addCount =>
      obtain rfl := (Prod.mk.inj (Option.some.inj performed)).2
      exact reserved_add reserved (LoadTest.Passed.pending _ (allows.2.2 automatic)) rfl
  | subCount =>
      obtain rfl := (Prod.mk.inj (Option.some.inj performed)).2
      exact reserved_aside reserved (Nat.sub_le _ _) rfl id
  | storeCount count =>
      obtain rfl := (Prod.mk.inj (Option.some.inj performed)).2
      have noReaders := invariant.exclusive thread (located.writes allows.1)
      have stored := balance.census.rebuilt thread count allows.2
      have counted := (balance.unlocked located invariant noReaders).1
      exact reserved_aside reserved (stored.trans counted.symm).le rfl id
  | rehash newActual =>
      obtain ⟨_, _, ⟨many, power⟩, _⟩ := id allows
      obtain ⟨rfl, rfl, _⟩ | ⟨rebuilt, rfl, rfl, _, actual, _, grows, noReaders⟩ :=
        rehash_act located invariant allows performed
      · exact reserved_aside reserved le_rfl rfl id
      obtain ⟨few, _, shape⟩ := invariant.layout.shape
      -- The new bucket count is at least twice the old one, so the old slots fill half of it.
      have doubled : 2 * map.layout.numBuckets ≤ newActual := by
        rw [shape, power] at grows
        have more : few < many := (Nat.pow_lt_pow_iff_right (by decide)).mp grows
        rw [shape, power, ← Nat.pow_succ']
        exact Nat.pow_le_pow_right (by decide) more
      have stored := (balance.unlocked located invariant noReaders).2.1
      apply reserved_afresh later busy
      change 4 * map.count ≤ 3 * (4 * rebuilt.numBuckets)
      omega
  | lockBucket bucketIdx =>
      have counted := count_kept (by simp) (by simp) (by simp) performed
      have sized := size_kept (by simp) performed
      apply reserved_aside reserved counted.le sized
      cases response <;> exact id
  | _ =>
      have counted := count_kept (by simp) (by simp) (by simp) performed
      have sized := size_kept (by simp) performed
      exact reserved_aside reserved counted.le sized id

end Step

/-! ### Every schedule -/

def loadLedger (config : SyncConfig) (automatic : config.autoResize) (threads : Nat) :
    Ledger config where
  Assumed := fun _ => True
  Balanced := fun past places map => Balance places map ∧ Watching past places map ∧
    (Busy threads past → Reserved threads places map)
  begins := by
    intro past places map thread call located balanced idle
    obtain ⟨balance, watching, reserved⟩ := balanced
    refine ⟨balance_start balance located idle call, watching_start watching call, ?_⟩
    intro busy
    exact reserved_aside (reserved busy.past) le_rfl rfl False.elim
  acts := by
    intro past places map thread action response after located invariant later _ _ balanced allows
      performed
    obtain ⟨balance, watching, reserved⟩ := balanced
    have watches := watching_act watching located invariant allows performed
    refine ⟨balance_act balance located invariant later allows performed, watches, ?_⟩
    intro busy
    exact reserved_act automatic (reserved busy.past) balance watching located invariant watches busy allows
      performed

theorem watching_new (numBuckets : Nat) :
    Watching ([] : SyncEvents config) (fun _ => Standing.outside) (SyncMap.new numBuckets) := by
  refine ⟨?_, ?_, List.nodup_nil⟩
  · intro thread
    refine ⟨?_, False.elim, ?_, ?_, fun _ _ => rfl⟩
    · rintro ⟨key, value, ttl, called⟩
      cases called
    · exact fun size _ read => by cases read
    · exact fun size found => by cases found
  · intro size member
    cases member

theorem reserved_new (threads numBuckets : Nat) :
    Reserved threads (fun _ => Standing.outside) (SyncMap.new numBuckets) := by
  refine ⟨∅, ?_, ?_⟩
  · intro thread
    simp [Standing.outside, LoadTest.Pending]
  · simp [SyncMap.new]

/-- What automatic resizing keeps, with at most so many threads inserting. -/
structure LoadBounded (config : SyncConfig) (numBuckets : Nat) (moves : SyncMoves) (threads : Nat) :
    Prop where
  /-- The load is at most three quarters and one key for each inserting thread. -/
  bounded :
    let map : SyncMap := (syncRun config numBuckets moves).shared
    4 * map.count ≤ 3 * (4 * map.layout.numBuckets) + 4 * threads
  /-- No bucket count that was found overloaded makes the map grow twice. -/
  once : (observed (syncTrace config numBuckets moves)).grown.Nodup
  doubled : ∀ size ∈ (observed (syncTrace config numBuckets moves)).grown,
    2 * size ≤ (SyncMap.layout (syncRun config numBuckets moves).shared).numBuckets

theorem load_bounded (config : SyncConfig) (automatic : config.autoResize) (numBuckets : Nat)
    (small : numBuckets ≤ SyncMap.maxBuckets) (moves : SyncMoves) (sized : moves.Sized)
    (threads : Nat) (busy : Busy threads (syncTrace config numBuckets moves)) :
    LoadBounded config numBuckets moves threads := by
  obtain ⟨places, _, _, _, watching, reserved⟩ := ledger_run (loadLedger config automatic threads)
    small moves sized (fun _ _ _ => trivial)
    ⟨balance_new numBuckets, watching_new numBuckets, fun _ => reserved_new threads numBuckets⟩
  obtain ⟨pending, _, bound⟩ := reserved busy
  refine ⟨?_, watching.once, ?_⟩
  · intro map
    have bounded : 4 * (map.count + pending.card) ≤ 3 * (4 * map.layout.numBuckets) + 4 * threads :=
      bound
    omega
  · intro size member
    exact (watching.grown size member).2

/-- A full bucket, and then two threads that find it overloaded at the same time. -/
theorem load_bounded_two_threads :
    let moves : SyncMoves :=
      (([1, 2, 3, 4] : List Byte).flatMap fun name =>
        .call 0 (.insert [name] [name] 0) :: List.replicate 30 (.step 0)) ++
      .call 0 (.insert [5] [5] 0) :: .call 1 (.insert [6] [6] 0) ::
        (List.replicate 50 [.step 0, .step 1]).flatten
    let config : SyncConfig := ⟨true, false, fun key => (key.headD 0).setWidth 64⟩
    moves.Sized ∧ Busy 2 (syncTrace config 1 moves) ∧ LoadBounded config 1 moves 2 ∧
      (observed (syncTrace config 1 moves)).grown = [1] := by
  intro moves config
  have short : ∀ name : Byte, (SyncCall.insert [name] [name] 0).Sized := by
    intro name
    change 1 + 1 < 2 ^ 32
    decide
  have calls : ∀ thread request, .call thread request ∈ moves →
      request.Sized ∧ thread ∈ ({0, 1} : Finset Nat) := by
    intro thread request member
    simp only [moves, List.flatMap_cons, List.flatMap_nil, List.append_nil, List.cons_append,
      List.append_assoc, List.mem_cons, Move.call.injEq, List.mem_append, List.mem_replicate,
      List.mem_flatten, reduceCtorEq, and_false, false_or] at member
    rcases member with ⟨rfl, rfl⟩ | ⟨rfl, rfl⟩ | ⟨rfl, rfl⟩ | ⟨rfl, rfl⟩ | ⟨rfl, rfl⟩ | ⟨rfl, rfl⟩ | steps
    · exact ⟨short 1, by decide⟩
    · exact ⟨short 2, by decide⟩
    · exact ⟨short 3, by decide⟩
    · exact ⟨short 4, by decide⟩
    · exact ⟨short 5, by decide⟩
    · exact ⟨short 6, by decide⟩
    · obtain ⟨pair, ⟨_, rfl⟩, stepped⟩ := steps
      simp at stepped
  have sized : moves.Sized := fun thread call member => (calls thread call member).1
  have busy : Busy (card {0, 1}) (syncTrace config 1 moves) := by
    apply busy_of_callers
    intro thread request _ found
    exact (calls thread request (System.called_scheduled _ found)).2
  exact ⟨sized, busy, load_bounded config rfl 1 (by decide) moves sized 2 busy, by decide +kernel⟩

end PulseMap
