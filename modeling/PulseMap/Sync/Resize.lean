import PulseMap.Sync.Counters
import PulseMap.Sync.Solo

/-!
`resize` alone: one pass over the stored triples, into a layout of exactly the size asked for
or none at all. The bindings, the counters and what `peek` answers survive it.
-/

namespace PulseMap

namespace SyncMap

open SyncProgram

variable {config : SyncConfig} {map : SyncMap} {thread : Nat}

/-- Everything but the records that no call reads. -/
structure SameMap (before after : SyncMap) : Prop where
  layout : after.layout = before.layout
  readers : after.readers = before.readers
  writer : after.writer = before.writer
  poisoned : after.poisoned = before.poisoned
  locks : after.locks = before.locks
  slabHolder : after.slabHolder = before.slabHolder
  count : after.count = before.count
  evictionCount : after.evictionCount = before.evictionCount
  currentEpoch : after.currentEpoch = before.currentEpoch
  defaultTtl : after.defaultTtl = before.defaultTtl
  accessBuffer : after.accessBuffer = before.accessBuffer

theorem grow_exec {rebuilt : Layout} {newActual count : Nat}
    (larger : map.layout.numBuckets < newActual)
    (rehashed : map.layout.rehash config newActual = some (some (rebuilt, count))) :
    ∃ buffer pushed delivered,
      (grow newActual map.layout.numBuckets : SyncProgram config Unit).exec thread map =
        some ((), { map with
          layout := rebuilt
          locks := fun _ => none
          generation := map.generation + 1
          count := count
          accessBuffer := buffer
          pushedIn := pushed
          deliveredIn := delivered }) := by
  obtain ⟨cleared, emptied, same⟩ := clear_exec config thread 4096 map
  obtain ⟨buffer, pushed, delivered, rfl⟩ : ∃ buffer pushed delivered, cleared =
      { map with accessBuffer := buffer, pushedIn := pushed, deliveredIn := delivered } :=
    ⟨_, _, _, same⟩
  let cleared : SyncMap :=
    { map with accessBuffer := buffer, pushedIn := pushed, deliveredIn := delivered }
  have performed : cleared.perform config thread (.rehash newActual) =
      some (some (some count), { cleared with
        layout := rebuilt
        locks := fun _ => none
        generation := map.generation + 1 }) := by
    simp only [perform, cleared, rehashed]
  refine ⟨buffer, pushed, delivered, ?_⟩
  unfold grow
  rw [if_neg (Nat.not_le.mpr larger), exec_part _ emptied]
  unfold rehashLoop
  rw [exec_atomic _ performed]
  rfl

theorem resize_exec_still (vacant : map.Vacant config) {newNumBuckets : Nat}
    (enough : roundedSize newNumBuckets ≤ map.layout.numBuckets) (thread : Nat) :
    ∃ after, (resize newNumBuckets : SyncProgram config Unit).exec thread map = some ((), after) ∧
      SameMap map after := by
  let writing : SyncMap := { map with writer := some thread }
  have entered : (writeInner : SyncProgram config Unit).exec thread map = some ((), writing) :=
    write_inner_exec vacant thread
  have sized : writing.perform config thread .readLayout =
      some ((map.layout.numBuckets, map.layout.bucketMask), writing) := rfl
  have kept : (grow (roundedSize newNumBuckets) map.layout.numBuckets : SyncProgram config Unit).exec
      thread writing = some ((), writing) := by
    unfold grow
    rw [if_pos enough]
    rfl
  refine ⟨{ writing.record thread .resize with writer := none }, ?_,
    ⟨rfl, rfl, vacant.writer.symm, rfl, rfl, rfl, rfl, rfl, rfl, rfl, rfl⟩⟩
  unfold resize
  rw [exec_part _ entered, exec_atomic _ sized]
  exact exec_part (fun _ => atomic (.commit .resize) >>= fun _ => atomic .writeUnlock) kept

theorem resize_exec_grown (vacant : map.Vacant config) {newNumBuckets : Nat}
    (small : newNumBuckets ≤ maxBuckets)
    (larger : map.layout.numBuckets < roundedSize newNumBuckets) (thread : Nat) :
    ∃ after, (resize newNumBuckets : SyncProgram config Unit).exec thread map = some ((), after) ∧
      map.layout.rehash config (roundedSize newNumBuckets) =
        some (some (after.layout, map.layout.entries.length)) ∧
      after.layout.numBuckets = roundedSize newNumBuckets ∧
      after.layout.entries.Perm map.layout.entries ∧ after.Vacant config ∧
      after.count = map.layout.entries.length ∧ after.evictionCount = map.evictionCount ∧
      after.currentEpoch = map.currentEpoch ∧ after.defaultTtl = map.defaultTtl := by
  obtain ⟨many, bounded, rounded⟩ := next_power_bits small
  obtain ⟨few, _, size⟩ := vacant.layout.shape
  have round : roundedSize newNumBuckets = 2 ^ many := by
    rw [rounded_size_eq (small.trans (by decide)), rounded]
  have grows : few ≤ many := by
    rw [size, round] at larger
    exact ((Nat.pow_lt_pow_iff_right (by decide)).mp larger).le
  obtain ⟨rebuilt, rehashed, kept, newSize, triples⟩ :=
    Layout.rehash_spec vacant.layout size grows bounded
  rw [← round] at rehashed newSize
  let writing : SyncMap := { map with writer := some thread }
  have entered : (writeInner : SyncProgram config Unit).exec thread map = some ((), writing) :=
    write_inner_exec vacant thread
  have sized : writing.perform config thread .readLayout =
      some ((map.layout.numBuckets, map.layout.bucketMask), writing) := rfl
  have largerHere : writing.layout.numBuckets < roundedSize newNumBuckets := larger
  have grown : ∃ buffer pushed delivered,
      (grow (roundedSize newNumBuckets) map.layout.numBuckets : SyncProgram config Unit).exec thread
        writing = some ((), { writing with
          layout := rebuilt
          locks := fun _ => none
          generation := map.generation + 1
          count := map.layout.entries.length
          accessBuffer := buffer
          pushedIn := pushed
          deliveredIn := delivered }) := grow_exec largerHere rehashed
  obtain ⟨buffer, pushed, delivered, ran⟩ := grown
  let built : SyncMap := { writing with
    layout := rebuilt
    locks := fun _ => none
    generation := map.generation + 1
    count := map.layout.entries.length
    accessBuffer := buffer
    pushedIn := pushed
    deliveredIn := delivered }
  refine ⟨{ built.record thread .resize with writer := none }, ?_, rehashed, newSize, triples, ?_,
    rfl, rfl, rfl, rfl⟩
  · unfold resize
    rw [exec_part _ entered, exec_atomic _ sized]
    exact exec_part (fun _ => atomic (.commit .resize) >>= fun _ => atomic .writeUnlock) ran
  · exact ⟨kept, vacant.readers, rfl, fun _ => rfl, vacant.slab, vacant.clean⟩

/-- A layout that cannot be allocated: the call panics under the write lock. -/
theorem resize_exec_oversize (vacant : map.Vacant config) {newNumBuckets : Nat}
    (tooLarge : maxBuckets < newNumBuckets) (small : newNumBuckets ≤ 2 ^ 63) (thread : Nat) :
    (resize newNumBuckets : SyncProgram config Unit).exec thread map = none := by
  have rounds : maxBuckets < roundedSize newNumBuckets := by
    rw [rounded_size_eq small]
    exact tooLarge.trans_le ((le_max_left _ 1).trans (le_next_power_of_two _))
  have larger := (Layout.bucket_bound vacant.layout).trans_lt rounds
  let writing : SyncMap := { map with writer := some thread }
  have entered : (writeInner : SyncProgram config Unit).exec thread map = some ((), writing) :=
    write_inner_exec vacant thread
  have sized : writing.perform config thread .readLayout =
      some ((map.layout.numBuckets, map.layout.bucketMask), writing) := rfl
  have panics : (grow (roundedSize newNumBuckets) map.layout.numBuckets :
      SyncProgram config Unit).exec thread writing = none := by
    obtain ⟨cleared, emptied, _⟩ := clear_exec config thread 4096 writing
    have performed : cleared.perform config thread (.rehash (roundedSize newNumBuckets)) =
        some (none, cleared) := by
      simp only [perform]
      rw [Layout.rehash_oversize config _ rounds]
      rfl
    have poisons : cleared.perform config thread .poison =
        some ((), { cleared with poisoned := true, writer := none }) := rfl
    unfold grow
    rw [if_neg (Nat.not_le.mpr larger), exec_part _ emptied]
    unfold rehashLoop
    rw [exec_atomic _ performed]
    exact exec_atomic (fun _ => Program.panic) poisons
  unfold resize
  rw [exec_part _ entered, exec_atomic _ sized]
  exact exec_part_none (fun _ => atomic (.commit .resize) >>= fun _ => atomic .writeUnlock) panics

/-! ### What survives -/

theorem find_triple {entries : List EntryData} (keys : (entries.map EntryData.keyBytes).Nodup)
    (key : Bytes) (entry : EntryData) :
    (entries.find? fun other => other.keyBytes = key) = some entry ↔
      entry ∈ entries ∧ entry.keyBytes = key := by
  constructor
  · intro found
    exact ⟨List.mem_of_find?_eq_some found, by simpa using List.find?_some found⟩
  · rintro ⟨member, named⟩
    cases found : entries.find? fun other => other.keyBytes = key with
    | none =>
        have missed := List.find?_eq_none.mp found entry member
        simp [named] at missed
    | some other =>
        have here : other.keyBytes = key := by simpa using List.find?_some found
        rw [List.inj_on_of_nodup_map keys (List.mem_of_find?_eq_some found) member
          (here.trans named.symm)]

theorem find_perm {olds news : List EntryData} (same : news.Perm olds)
    (keys : (olds.map EntryData.keyBytes).Nodup) (key : Bytes) :
    (news.find? fun entry => entry.keyBytes = key) = olds.find? fun entry => entry.keyBytes = key := by
  have newKeys : (news.map EntryData.keyBytes).Nodup := (same.map _).nodup_iff.mpr keys
  apply Option.ext
  intro entry
  rw [find_triple newKeys, find_triple keys, same.mem_iff]

theorem answer_perm {after : SyncMap} (vacant : map.Vacant config)
    (same : after.layout.entries.Perm map.layout.entries)
    (epoch : after.currentEpoch = map.currentEpoch) (ttl : after.defaultTtl = map.defaultTtl)
    (key : Bytes) : after.answer key = map.answer key := by
  unfold answer
  rw [find_perm same (Layout.entries_keys_nodup vacant.layout), epoch, ttl]

def triples (map : SyncMap) : Option (List EntryData) :=
  map.layout.collect (Layout.places map.layout.numBuckets)

/-- What `resize` does to a map that no other call is inside. -/
structure Resized (config : SyncConfig) (newNumBuckets : Nat) (before after : SyncMap) : Prop where
  size : after.layout.numBuckets = max before.layout.numBuckets (roundedSize newNumBuckets)
  mask : after.layout.bucketMask = after.layout.numBuckets - 1
  /-- The retry loop needs one pass, and its layout is the one installed. -/
  onePass : before.layout.numBuckets < roundedSize newNumBuckets →
    ∃ count, before.layout.rehash config (roundedSize newNumBuckets) =
      some (some (after.layout, count))
  unchanged : roundedSize newNumBuckets ≤ before.layout.numBuckets → SameMap before after
  kept : ∃ olds news, before.triples = some olds ∧ after.triples = some news ∧ news.Perm olds ∧
    (olds.map EntryData.keyBytes).Nodup ∧ after.count = news.length
  home : ∀ bucketIdx slot entry, after.layout.entryAt bucketIdx slot = some (some entry) →
    config.bucketIndex (config.hash entry.keyBytes).h1 after.layout.bucketMask = bucketIdx
  evictionCount : after.evictionCount = before.evictionCount
  currentEpoch : after.currentEpoch = before.currentEpoch
  defaultTtl : after.defaultTtl = before.defaultTtl
  peeks : ∀ thread key, ∃ result kept last,
    (peek key : SyncProgram config SyncResult).exec thread before = some (result, kept) ∧
      (peek key : SyncProgram config SyncResult).exec thread after = some (result, last)

theorem resized_of {after : SyncMap} {newNumBuckets : Nat} (vacant : map.Vacant config)
    (later : after.Vacant config)
    (size : after.layout.numBuckets = max map.layout.numBuckets (roundedSize newNumBuckets))
    (onePass : map.layout.numBuckets < roundedSize newNumBuckets →
      ∃ count, map.layout.rehash config (roundedSize newNumBuckets) = some (some (after.layout, count)))
    (unchanged : roundedSize newNumBuckets ≤ map.layout.numBuckets → SameMap map after)
    (same : after.layout.entries.Perm map.layout.entries)
    (counted : after.count = after.layout.entries.length)
    (evictions : after.evictionCount = map.evictionCount)
    (epoch : after.currentEpoch = map.currentEpoch) (ttl : after.defaultTtl = map.defaultTtl) :
    Resized config newNumBuckets map after where
  size := size
  mask := later.layout.mask
  onePass := onePass
  unchanged := unchanged
  kept := ⟨map.layout.entries, after.layout.entries, Layout.collect_eq vacant.layout _,
    Layout.collect_eq later.layout _, same, Layout.entries_keys_nodup vacant.layout, counted⟩
  home := by
    intro bucketIdx slot entry found
    rw [Layout.entry_at_eq later.layout] at found
    have held := Layout.entry_of_content (Option.some.inj found)
    exact later.layout.home bucketIdx slot entry.keyBytes entry.valBytes held
  evictionCount := evictions
  currentEpoch := epoch
  defaultTtl := ttl
  peeks := by
    intro thread key
    obtain ⟨kept, first, _⟩ := peek_exec vacant thread key
    obtain ⟨last, second, _⟩ := peek_exec later thread key
    rw [peeked_eq_answer vacant] at first
    rw [peeked_eq_answer later, answer_perm vacant same epoch ttl] at second
    exact ⟨_, kept, last, first, second⟩

theorem resize_exec (vacant : map.Vacant config) (counted : map.count = map.layout.entries.length)
    {newNumBuckets : Nat} (small : newNumBuckets ≤ maxBuckets) (thread : Nat) :
    ∃ after, (resize newNumBuckets : SyncProgram config Unit).exec thread map = some ((), after) ∧
      Resized config newNumBuckets map after ∧ after.Vacant config ∧
      after.count = after.layout.entries.length := by
  by_cases enough : roundedSize newNumBuckets ≤ map.layout.numBuckets
  · obtain ⟨after, ran, same⟩ := resize_exec_still vacant enough thread
    have later : after.Vacant config := by
      refine ⟨?_, ?_, ?_, ?_, ?_, ?_⟩
      · rw [same.layout]
        exact vacant.layout
      · rw [same.readers]
        exact vacant.readers
      · rw [same.writer]
        exact vacant.writer
      · rw [same.locks]
        exact vacant.locks
      · rw [same.slabHolder]
        exact vacant.slab
      · rw [same.poisoned]
        exact vacant.clean
    have countedLater : after.count = after.layout.entries.length := by
      rw [same.count, same.layout]
      exact counted
    refine ⟨after, ran, resized_of vacant later ?_ ?_ (fun _ => same) ?_ countedLater
      same.evictionCount same.currentEpoch same.defaultTtl, later, countedLater⟩
    · rw [same.layout, max_eq_left enough]
    · exact fun larger => absurd enough (Nat.not_le.mpr larger)
    · rw [same.layout]
  · have larger := Nat.not_le.mp enough
    obtain ⟨after, ran, rehashed, size, triples, later, stored, evictions, epoch, ttl⟩ :=
      resize_exec_grown vacant small larger thread
    have countedLater : after.count = after.layout.entries.length := stored.trans triples.length_eq.symm
    refine ⟨after, ran, resized_of vacant later ?_ (fun _ => ⟨_, rehashed⟩) ?_ triples countedLater
      evictions epoch ttl, later, countedLater⟩
    · rw [size, max_eq_right larger.le]
    · exact fun enough => absurd enough (Nat.not_le.mpr larger)

def resizeAll (config : SyncConfig) : List (Nat × Nat) → SyncMap → Option SyncMap
  | [], map => some map
  | (thread, newNumBuckets) :: rest, map => do
      let (_, next) ← (resize newNumBuckets : SyncProgram config Unit).exec thread map
      resizeAll config rest next

def largestSize (requests : List (Nat × Nat)) (size : Nat) : Nat :=
  requests.foldl (fun size request => max size (roundedSize request.2)) size

theorem largest_size_perm {requests others : List (Nat × Nat)} (same : others.Perm requests)
    (size : Nat) : largestSize others size = largestSize requests size := by
  apply same.foldl_eq'
  intro first _ second _ size
  rw [max_right_comm]

theorem resize_all_exec (vacant : map.Vacant config)
    (counted : map.count = map.layout.entries.length) (requests : List (Nat × Nat))
    (small : ∀ request ∈ requests, request.2 ≤ maxBuckets) :
    ∃ final, resizeAll config requests map = some final ∧
      final.layout.numBuckets = largestSize requests map.layout.numBuckets := by
  induction requests generalizing map with
  | nil => exact ⟨map, rfl, rfl⟩
  | cons request rest induction =>
      obtain ⟨thread, newNumBuckets⟩ := request
      obtain ⟨next, ran, resized, later, countedLater⟩ :=
        resize_exec vacant counted (small (thread, newNumBuckets) (by simp)) thread
      obtain ⟨final, done, size⟩ := induction later countedLater
        fun other member => small other (by simp [member])
      refine ⟨final, ?_, ?_⟩
      · rw [resizeAll, ran]
        exact done
      · rw [size, resized.size]
        rfl

theorem counted_run {numBuckets : Nat} (small : numBuckets ≤ maxBuckets) (moves : SyncMoves)
    (sized : moves.Sized)
    (noReaders : SyncMap.readers (syncRun config numBuckets moves).shared = ∅)
    (vacant : SyncMap.Vacant config (syncRun config numBuckets moves).shared) :
    SyncMap.count (syncRun config numBuckets moves).shared =
      (SyncMap.layout (syncRun config numBuckets moves).shared).entries.length := by
  obtain ⟨places, _, located, balance⟩ := ledger_run (balanceLedger config) small moves sized
    (fun _ _ _ => trivial) (balance_new numBuckets)
  have invariant := (sync_run_holds config False small moves sized False.elim).invariant
  have balanced : Balance places (syncRun config numBuckets moves).shared := balance
  rw [Layout.entries_length vacant.layout]
  exact (balanced.unlocked located invariant noReaders).1

end SyncMap

theorem resize_keeps_bindings (config : SyncConfig) (numBuckets : Nat)
    (small : numBuckets ≤ SyncMap.maxBuckets) (moves : SyncMoves) (sized : moves.Sized)
    (noReaders : SyncMap.readers (syncRun config numBuckets moves).shared = ∅)
    (noWriter : SyncMap.writer (syncRun config numBuckets moves).shared = none)
    (clean : SyncMap.poisoned (syncRun config numBuckets moves).shared = false) :
    let map : SyncMap := (syncRun config numBuckets moves).shared
    (∀ thread newNumBuckets, newNumBuckets ≤ 2 ^ 56 → ∃ after : SyncMap,
      (SyncProgram.resize newNumBuckets : SyncProgram config Unit).exec thread map =
        some ((), after) ∧ SyncMap.Resized config newNumBuckets map after) ∧
    ∀ requests : List (Nat × Nat), (∀ request ∈ requests, request.2 ≤ 2 ^ 56) →
      ∀ others, others.Perm requests → ∃ final last,
        SyncMap.resizeAll config requests map = some final ∧
        SyncMap.resizeAll config others map = some last ∧
        final.layout.numBuckets = SyncMap.largestSize requests map.layout.numBuckets ∧
        last.layout.numBuckets = final.layout.numBuckets := by
  intro map
  have invariant : map.Invariant config False :=
    (sync_run_holds config False small moves sized False.elim).invariant
  have vacant := SyncMap.vacant_of_unlocked invariant noReaders noWriter clean
  have counted := SyncMap.counted_run small moves sized noReaders vacant
  constructor
  · intro thread newNumBuckets bounded
    obtain ⟨after, ran, resized, _⟩ := SyncMap.resize_exec vacant counted bounded thread
    exact ⟨after, ran, resized⟩
  · intro requests bounded others same
    obtain ⟨final, done, size⟩ := SyncMap.resize_all_exec vacant counted requests bounded
    obtain ⟨last, otherDone, otherSize⟩ := SyncMap.resize_all_exec vacant counted others
      fun request member => bounded request (same.mem_iff.mp member)
    refine ⟨final, last, done, otherDone, size, ?_⟩
    rw [otherSize, size, SyncMap.largest_size_perm same]

theorem resize_keeps_bindings_one_pair :
    ∃ after : SyncMap,
      (SyncProgram.resize 5 : SyncProgram ⟨false, false, fun _ => 0⟩ Unit).exec 1
        (syncRun ⟨false, false, fun _ => 0⟩ 1
          (.call 0 (.insert [] [1, 2, 3, 4, 5, 6, 7, 8] 0) :: List.replicate 20 (.step 0))).shared =
        some ((), after) ∧ after.layout.numBuckets = 8 := by
  have sized : SyncMoves.Sized
      (.call 0 (.insert [] [1, 2, 3, 4, 5, 6, 7, 8] 0) :: List.replicate 20 (.step 0)) := by
    intro thread call member
    simp only [List.mem_cons, Move.call.injEq, List.mem_replicate, reduceCtorEq, and_false,
      or_false] at member
    obtain ⟨_, rfl⟩ := member
    change 0 + 8 < 2 ^ 32
    decide
  have kept := resize_keeps_bindings ⟨false, false, fun _ => 0⟩ 1 (by decide) _ sized (by decide)
    (by decide) (by decide)
  obtain ⟨after, ran, resized⟩ := kept.1 1 5 (by decide)
  refine ⟨after, ran, ?_⟩
  rw [resized.size]
  decide

/-- `2 ^ 57` buckets fit the size arithmetic and no allocation: the call panics and leaves the
lock poisoned. -/
theorem resize_too_large_panics :
    (¬ ∀ newNumBuckets, newNumBuckets ≤ 2 ^ 58 → ∃ after,
      (SyncProgram.resize newNumBuckets : SyncProgram ⟨false, false, fun _ => 0⟩ Unit).exec 0
        (SyncMap.new 1) = some ((), after)) ∧
      (syncRun ⟨false, false, fun _ => 0⟩ 1
        (.call 0 (.resize (2 ^ 57)) :: List.replicate 12 (.step 0))).programs 0 = .panic ∧
      (syncRun ⟨false, false, fun _ => 0⟩ 1
        (.call 0 (.resize (2 ^ 57)) :: List.replicate 12 (.step 0))).shared.poisoned = true := by
  refine ⟨?_, by rfl, by decide +kernel⟩
  intro completes
  obtain ⟨after, ran⟩ := completes (2 ^ 57) (by decide)
  have fresh := sync_run_holds ⟨false, false, fun _ => 0⟩ False
    (show 1 ≤ SyncMap.maxBuckets by decide) [] (by simp [SyncMoves.Sized]) False.elim
  have vacant : SyncMap.Vacant ⟨false, false, fun _ => 0⟩ (SyncMap.new 1) :=
    SyncMap.vacant_of_unlocked fresh.invariant rfl rfl rfl
  rw [SyncMap.resize_exec_oversize vacant (by decide) (by decide) 0] at ran
  cases ran

end PulseMap
