import PulseMap.Sync.ShardedMap

/-!
What the sharded map says of itself as a whole. Between the calls every counter of a shard is
settled, and no key is in two shards, so the sums over the shards count every stored key
of the map once.
-/

namespace PulseMap

variable {Key Value : Type} [PulseKey Key] [PulseValue Value]

/-! ### Looks that nothing interrupts -/

namespace ShardedScript

variable {config : SyncConfig} {thread : Nat}
  {shared : Copies SyncMap Nat (ShardedNote Key Value)}

abbrev compiled (script : ShardedScript config Key Value) :
    Program ((syncMachine config).copies Nat (ShardedNote Key Value)) Unit :=
  script.compile (SyncCall.answered config)

section Looks

omit [PulseKey Key] [PulseValue Value]

theorem done_exec (note : ShardedNote Key Value) :
    (compiled (.done note : ShardedScript config Key Value)).exec thread shared =
      some ((), ⟨shared.parts, shared.notes ++ [(thread, note)]⟩) := rfl

theorem look_exec {query : Query (syncMachine config)} {index : Nat}
    {next : (syncMachine config).Response query.action → ShardedScript config Key Value}
    {response : (syncMachine config).Response query.action}
    (answers : (syncMachine config).perform thread query.action (shared.parts index) =
      some (response, shared.parts index)) :
    (compiled (.look index query next)).exec thread shared =
      (compiled (next response)).exec thread shared := by
  refine (Program.exec_act (Machine.copies_on answers)).trans ?_
  rw [Function.update_eq_self]
  rfl

theorem look_all_exec {query : Query (syncMachine config)}
    {answer : Nat → (syncMachine config).Response query.action}
    (answers : ∀ index, (syncMachine config).perform thread query.action (shared.parts index) =
      some (answer index, shared.parts index))
    (indices : List Nat)
    (next : List ((syncMachine config).Response query.action) → ShardedScript config Key Value) :
    (compiled (lookAll query indices next)).exec thread shared =
      (compiled (next (indices.map answer))).exec thread shared := by
  induction indices generalizing next with
  | nil => rfl
  | cons index rest induction =>
      rw [lookAll, look_exec (answers index), induction, List.map_cons]

theorem all_empty_exec (indices : List Nat) (next : Bool → ShardedScript config Key Value) :
    (compiled (allEmpty indices next)).exec thread shared =
      (compiled (next (decide (∀ index ∈ indices, (shared.parts index).count = 0)))).exec thread shared := by
  induction indices with
  | nil => rfl
  | cons index rest induction =>
      refine (look_exec rfl).trans ?_
      change (compiled (if (shared.parts index).count = 0 then allEmpty rest next else next false)).exec
        thread shared = _
      by_cases empty : (shared.parts index).count = 0
      · rw [if_pos empty, induction]
        simp [empty]
      · rw [if_neg empty]
        simp [empty]

end Looks

theorem len_exec :
    (compiled ((ShardedCall.len : ShardedCall Key Value).script config)).exec thread shared =
      some ((), ⟨shared.parts, shared.notes ++
        [(thread, (.len, .number (∑ index ∈ Finset.range numShards, (shared.parts index).count)))]⟩) := by
  have counts : ∀ index, (syncMachine config).perform thread (lenQuery config).action
      (shared.parts index) = some ((shared.parts index).count, shared.parts index) := fun _ => rfl
  exact (look_all_exec counts _ _).trans (done_exec _)

theorem is_empty_exec :
    (compiled ((ShardedCall.isEmpty : ShardedCall Key Value).script config)).exec thread shared =
      some ((), ⟨shared.parts, shared.notes ++ [(thread, (.isEmpty, .empty
        (∀ index ∈ shards, (shared.parts index).count = 0)))]⟩) :=
  (all_empty_exec _ _).trans (done_exec _)

end ShardedScript

/-! ### The sums -/

def shardedKeys (shard : Nat → SyncMap) : Finset Bytes :=
  (Finset.range numShards).biUnion fun index => storedKeys (shard index).history

/-- What holds of a map between its calls. -/
structure AtRest (map : SyncMap) : Prop where
  count : map.count = (storedKeys map.history).card
  placed : map.count + map.evictionCount + map.removedTrue = placements map.history

theorem sync_run_at_rest (config : SyncConfig) {numBuckets : Nat} (small : numBuckets ≤ SyncMap.maxBuckets)
    (moves : SyncMoves) (sized : moves.Sized)
    (finished : ∀ thread, ((syncRun config numBuckets moves).programs thread).finished = true) :
    AtRest (syncRun config numBuckets moves).shared := by
  obtain ⟨places, conducts, located, balance⟩ := ledger_run (balanceLedger config) small moves sized
    (fun _ _ _ => trivial) (balance_new numBuckets)
  have invariant := (sync_run_holds config False small moves sized False.elim).invariant
  have balanced : Balance places (syncRun config numBuckets moves).shared := balance
  have idle : ∀ thread, (places thread).Idle :=
    fun thread => idle_of_finished (conducts thread) (finished thread)
  have noReaders : SyncMap.readers (syncRun config numBuckets moves).shared = ∅ := by
    ext thread
    rw [← located.reading thread, (idle thread).1.1]
    simp
  obtain ⟨counted, _, placed⟩ := balanced.unlocked located invariant noReaders
  obtain ⟨unreturned, members, total⟩ := balanced.removed
  have noneLeft : unreturned = ∅ := by
    ext thread
    rw [members thread, (idle thread).2.2]
    simp
  rw [noneLeft, Finset.card_empty, add_zero] at total
  rw [total] at placed
  have free := located.still noReaders
  have still : SyncMap.transit (syncRun config numBuckets moves).shared = Layout.still :=
    funext fun bucketIdx => invariant.moving bucketIdx (free bucketIdx)
  have layout := invariant.layout
  rw [still] at layout
  exact ⟨counted.trans (Layout.full_slots_stored layout invariant.reflects), placed⟩

theorem shard_for_lt (wyhash : Bytes → Word) (keyBytes : Bytes) : shardFor wyhash keyBytes < numShards := by
  rw [shardFor, shard_of_eq]
  exact Nat.mod_lt _ (by decide)

section Totals

variable {bucketsPerShard : Nat} {moves : ShardedMoves Key Value} {schedule : Nat → SyncMoves}
  {config : SyncConfig} {shard : Nat → SyncMap}

theorem home_of_stored {index : Nat} {name : Bytes}
    (runs : ShardRuns config bucketsPerShard moves index (schedule index) (shard index))
    (stored : name ∈ storedKeys (shard index).history) : shardFor config.wyhash name = index := by
  rw [mem_stored_keys, Option.isSome_iff_exists] at stored
  obtain ⟨text, bound⟩ := stored
  exact (runs.bound (List.append_nil _).symm bound).1

theorem mem_sharded_keys (small : bucketsPerShard ≤ SyncMap.maxBuckets)
    (runs : ∀ index, ShardRuns config bucketsPerShard moves index (schedule index) (shard index))
    (name : Bytes) :
    name ∈ shardedKeys shard ↔ ∃ (position : Position) (value : Bytes),
      (shard (shardFor config.wyhash name)).layout.content position.1 position.2 = some (name, value) := by
  have reflects := ((runs (shardFor config.wyhash name)).invariant small).reflects
  rw [shardedKeys, Finset.mem_biUnion]
  constructor
  · rintro ⟨index, _, stored⟩
    obtain rfl := home_of_stored (runs index) stored
    rw [mem_stored_keys, Option.isSome_iff_exists] at stored
    obtain ⟨value, bound⟩ := stored
    obtain ⟨position, held⟩ := (reflects name value).mpr bound
    exact ⟨position, value, held⟩
  · rintro ⟨position, value, held⟩
    have bound := (reflects name value).mp ⟨position, held⟩
    refine ⟨_, Finset.mem_range.mpr (shard_for_lt config.wyhash name), ?_⟩
    rw [mem_stored_keys, Option.isSome_iff_exists]
    exact ⟨value, bound⟩

theorem sharded_keys_card
    (runs : ∀ index, ShardRuns config bucketsPerShard moves index (schedule index) (shard index)) :
    (shardedKeys shard).card = ∑ index ∈ Finset.range numShards, (storedKeys (shard index).history).card := by
  apply Finset.card_biUnion
  intro left _ right _ different
  refine Finset.disjoint_left.mpr ?_
  intro name here there
  exact different ((home_of_stored (runs left) here).symm.trans (home_of_stored (runs right) there))

end Totals

/-- What the sharded map says of itself while no call is running. -/
structure ShardedCounted (config : SyncConfig) (shared : Copies SyncMap Nat (ShardedNote Key Value)) :
    Prop where
  stored : ∀ name, name ∈ shardedKeys shared.parts ↔ ∃ (position : Position) (value : Bytes),
    (shared.parts (shardFor config.wyhash name)).layout.content position.1 position.2 = some (name, value)
  /-- No shard stores a key that belongs to another one. -/
  home : ∀ index (position : Position) name value,
    (shared.parts index).layout.content position.1 position.2 = some (name, value) →
      shardFor config.wyhash name = index
  /-- Every key that was placed is stored, evicted or removed. -/
  placed : (shardedKeys shared.parts).card +
    ∑ index ∈ Finset.range numShards, (shared.parts index).evictionCount +
    ∑ index ∈ Finset.range numShards, (shared.parts index).removedTrue =
    ∑ index ∈ Finset.range numShards, placements (shared.parts index).history
  /-- `len` returns the number of stored keys and changes nothing. -/
  len : ∀ thread, (ShardedScript.compiled (ShardedCall.len.script config)).exec thread shared =
    some ((), ⟨shared.parts, shared.notes ++ [(thread, (.len, .number (shardedKeys shared.parts).card))]⟩)
  /-- `is_empty` returns whether no key is stored. -/
  isEmpty : ∀ thread, (ShardedScript.compiled (ShardedCall.isEmpty.script config)).exec thread shared =
    some ((), ⟨shared.parts,
      shared.notes ++ [(thread, (.isEmpty, .empty (shardedKeys shared.parts = ∅)))]⟩)

theorem sharded_len_counts_keys (autoResize : Bool) (wyhash : Bytes → Word) (bucketsPerShard : Nat)
    (small : bucketsPerShard ≤ SyncMap.maxBuckets) (moves : ShardedMoves Key Value) (sized : moves.Sized)
    (finished : ∀ thread,
      ((shardedRun autoResize wyhash bucketsPerShard moves).programs thread).finished = true) :
    ShardedCounted (shardConfig autoResize wyhash)
      (shardedRun autoResize wyhash bucketsPerShard moves).shared := by
  obtain ⟨split, stage, splits, runs⟩ := shards_run autoResize wyhash bucketsPerShard sized
  generalize system_eq : shardedRun autoResize wyhash bucketsPerShard moves = system at *
  have settled : ∀ index, AtRest (Copies.parts system.shared index) := by
    intro index
    rw [← (runs index).state]
    apply sync_run_at_rest _ small _ (runs index).sized
    intro thread
    have part := splits.finished (finished thread) index
    unfold Service.alone at part
    rw [show (shardService (shardConfig autoResize wyhash)).work =
      SyncCall.answered (shardConfig autoResize wyhash) from rfl, program_answered] at part
    exact part
  have total : (shardedKeys (Copies.parts system.shared)).card =
      ∑ index ∈ Finset.range numShards, SyncMap.count (Copies.parts system.shared index) := by
    rw [sharded_keys_card runs]
    exact Finset.sum_congr rfl fun index _ => (settled index).count.symm
  refine ⟨mem_sharded_keys small runs, ?_, ?_, ?_, ?_⟩
  · intro index position name value held
    have bound := (((runs index).invariant small).reflects name value).mp ⟨position, held⟩
    exact ((runs index).bound (List.append_nil _).symm bound).1
  · rw [total, ← Finset.sum_add_distrib, ← Finset.sum_add_distrib]
    exact Finset.sum_congr rfl fun index _ => (settled index).placed
  · intro thread
    refine ShardedScript.len_exec.trans ?_
    rw [total]
  · intro thread
    have empty : (∀ index ∈ shards, SyncMap.count (Copies.parts system.shared index) = 0) ↔
        shardedKeys (Copies.parts system.shared) = ∅ := by
      rw [← Finset.card_eq_zero, total, Finset.sum_eq_zero_iff]
      simp only [shards, List.mem_range, Finset.mem_range]
    refine ShardedScript.is_empty_exec.trans ?_
    simp only [empty]

theorem sharded_len_counts_keys_one_insert :
    ∃ count, let moves : ShardedMoves UInt32 UInt32 :=
        .call 0 (.insert 7 70 0) :: List.replicate count (.step 0)
      moves.Sized ∧
      (∀ thread, ((shardedRun false (fun _ => 0) 1 moves).programs thread).finished = true) ∧
      ShardedCounted (shardConfig false fun _ => 0) (shardedRun false (fun _ => 0) 1 moves).shared := by
  have ran : ((ShardedScript.compiled ((ShardedCall.insert (7 : UInt32) (70 : UInt32) 0).script
      (shardConfig false fun _ => 0))).exec 0 ⟨fun _ => SyncMap.new 1, []⟩).isSome = true := by
    decide +kernel
  obtain ⟨⟨_, after⟩, ran⟩ := Option.isSome_iff_exists.mp ran
  have idle : (shardedRun false (fun _ => 0) 1 ([] : ShardedMoves UInt32 UInt32)).programs 0 = .done () :=
    rfl
  obtain ⟨count, steps⟩ := System.exec_call (fun client => ShardedScript.compiled
    (ShardedCall.script (shardConfig false fun _ => 0) client)) idle ran
  refine ⟨count, ?_⟩
  intro moves
  have sized : moves.Sized := by
    intro thread call member
    simp only [moves, List.mem_cons, Move.call.injEq, List.mem_replicate, reduceCtorEq, and_false,
      or_false] at member
    rw [member.2]
    change (keyBytes (7 : UInt32)).length + (valueBytes (70 : UInt32)).length < 2 ^ 32
    decide
  have finished : ∀ thread,
      ((shardedRun false (fun _ => 0) 1 moves).programs thread).finished = true := by
    intro thread
    have reached : shardedRun false (fun _ => 0) 1 moves = _ := steps
    rw [reached]
    rfl
  exact ⟨sized, finished, sharded_len_counts_keys false _ 1 (by decide) moves sized finished⟩

end PulseMap
