import PulseMap.Library.ClientProgress
import PulseMap.Sync.Progress
import PulseMap.Sync.ShardedMap

/-!
The calls of the sharded map return. No call holds a lock of one shard while it waits in
another, so the shards do not wait for each other, and each of them is a concurrent map
whose calls return.
-/

namespace PulseMap

variable {Key Value : Type} [PulseKey Key] [PulseValue Value] {config : SyncConfig}

/-! ### The shards by their lock operations -/

theorem query_acquires (query : Query (syncMachine config)) :
    SyncAction.acquires query.action ≠ some (.slab true) := by
  obtain ⟨action, answers⟩ := query
  intro acquires
  cases action with
  | slabLock =>
      obtain ⟨response, performed⟩ := answers 0 { SyncMap.new 1 with slabHolder := some 0 }
      cases performed
  | _ => cases acquires

def lockQuery (query : Query (syncMachine config)) : Query (lockMachine config) where
  action := .act query.action
  answers := by
    intro thread shared
    obtain ⟨response, performed⟩ := query.answers thread shared.map
    refine ⟨response, ?_⟩
    change (if _ then none else (shared.map.perform config thread query.action).map _) = _
    rw [if_neg fun waits => query_acquires query waits.1,
      show shared.map.perform config thread query.action = some (response, shared.map) from performed]
    rfl

namespace ShardedScript

def onLocks : ShardedScript config Key Value →
    Script (lockMachine config) Nat SyncCall SyncResult (ShardedNote Key Value)
  | .done note => .done note
  | .call index request next => .call index request fun answer => onLocks (next answer)
  | .look index query next => .look index (lockQuery query) fun response => onLocks (next response)

omit [PulseKey Key] [PulseValue Value] in
theorem on_locks_asks {script : ShardedScript config Key Value} {index : Nat} {request : SyncCall}
    (asks : script.onLocks.Asks index request) : script.Asks index request := by
  induction script with
  | done note => exact asks
  | call place sent next induction =>
      rcases asks with here | ⟨answer, later⟩
      · exact Or.inl here
      · exact Or.inr ⟨answer, induction answer later⟩
  | look place query next induction =>
      obtain ⟨response, later⟩ := asks
      exact ⟨response, induction response later⟩

end ShardedScript

theorem expand_serve {Result : Type} (program : SyncProgram config Result) (collected : Bool) :
    SyncProgram.expand collected (program >>= fun _ => Program.done ()) =
      (program.expand collected >>= fun _ => Program.done ()) := by
  induction program generalizing collected with
  | done result => rfl
  | panic => rfl
  | act action next induction =>
      simp only [Program.act_bind, SyncProgram.expand, Program.bind_assoc]
      exact congrArg (LockProgram.before collected action >>= ·) (funext fun _ =>
        congrArg (LockProgram.atomic (.act action) >>= ·) (funext fun response =>
          congrArg (LockProgram.after action response >>= ·) (funext fun _ => induction response _)))

/-- The calls of a shard; what they answer does not matter here. -/
def lockService (config : SyncConfig) : Service (lockMachine config) SyncCall SyncResult where
  work := fun call => (SyncCall.answered config call).expand false
  record := ⟨Unit, fun _ _ => (), fun _ _ => rfl⟩
  Serves := fun _ _ _ _ _ => True
  ends := by
    intro thread call own
    generalize (SyncCall.answered config call).expand false = program
    induction program with
    | done result => trivial
    | panic => trivial
    | act action next induction => exact fun _ response _ _ _ => induction response

def shardedLockRun (autoResize : Bool) (wyhash : Bytes → Word) (bucketsPerShard : Nat)
    (moves : ShardedMoves Key Value) :
    System ((lockMachine (shardConfig autoResize wyhash)).copies Nat (ShardedNote Key Value)) :=
  clientRun (lockService (shardConfig autoResize wyhash)) ⟨SyncMap.new bucketsPerShard, none, none⟩
    (fun call => (ShardedCall.script (shardConfig autoResize wyhash) call).onLocks) moves

theorem lock_service_opens (config : SyncConfig) : (lockService config).Opens := by
  intro request
  exact ⟨.act (.begin request), _, rfl, fun _ _ => rfl⟩

theorem shard_alone (config : SyncConfig) (bucketsPerShard : Nat) (schedule : List (Move SyncCall)) :
    (lockService config).alone ⟨SyncMap.new bucketsPerShard, none, none⟩ schedule =
      lockRun config bucketsPerShard (schedule.map (Move.map .call)) := by
  have work : Program.serve (lockService config).work =
      fun request => LockCall.program config (.call request) := by
    funext request
    rw [Program.serve, lockService, ← expand_serve]
    exact congrArg (SyncProgram.expand false) (congrFun (program_answered config) request)
  unfold Service.alone lockRun
  rw [work, System.run_map]

/-! ### The sharded map -/

/-- A thread has panicked under the write lock of a shard, after more buckets were asked for
than can be allocated. -/
def ShardPoisoned (system : System ((lockMachine config).copies Nat (ShardedNote Key Value))) : Prop :=
  ∃ index, (LockedMap.map (Copies.parts system.shared index)).poisoned = true ∧
    (LockedMap.map (Copies.parts system.shared index)).Oversized config

section Runs

variable {autoResize : Bool} {wyhash : Bytes → Word} {bucketsPerShard : Nat}
  {moves : ShardedMoves Key Value}

def ShardedReached (autoResize : Bool) (wyhash : Bytes → Word) (bucketsPerShard : Nat)
    (system : System ((lockMachine (shardConfig autoResize wyhash)).copies Nat (ShardedNote Key Value))) :
    Prop :=
  ∃ moves : ShardedMoves Key Value, moves.Sized ∧
    system = shardedLockRun autoResize wyhash bucketsPerShard moves

theorem sharded_lock_splits (sized : moves.Sized) :
    ∃ split stage, Splits (lockService (shardConfig autoResize wyhash))
        ⟨SyncMap.new bucketsPerShard, none, none⟩
        (fun call => (ShardedCall.script (shardConfig autoResize wyhash) call).onLocks) moves
        (shardedLockRun autoResize wyhash bucketsPerShard moves) split stage ∧
      ∀ index, LockReached (shardConfig autoResize wyhash) bucketsPerShard
        ((lockService (shardConfig autoResize wyhash)).alone
          ⟨SyncMap.new bucketsPerShard, none, none⟩ (split index)) := by
  obtain ⟨split, stage, splits⟩ := clients_split (lockService (shardConfig autoResize wyhash))
    ⟨SyncMap.new bucketsPerShard, none, none⟩
    (fun call => (ShardedCall.script (shardConfig autoResize wyhash) call).onLocks) moves
  refine ⟨split, stage, splits, ?_⟩
  intro index
  refine ⟨_, ?_, shard_alone _ bucketsPerShard (split index)⟩
  intro thread call member
  obtain ⟨move, sent, same⟩ := List.mem_map.mp member
  cases move with
  | step other => cases same
  | call other request =>
      cases same
      obtain ⟨client, called, asks⟩ := splits.sent index thread request sent
      exact (ShardedScript.asks_routes (ShardedScript.on_locks_asks asks)).sized (sized thread client called)

theorem sharded_reached_acts
    {before after : System ((lockMachine (shardConfig autoResize wyhash)).copies Nat (ShardedNote Key Value))}
    {thread : Nat} (reached : ShardedReached autoResize wyhash bucketsPerShard before)
    (acts : before.Acts after thread) : ShardedReached autoResize wyhash bucketsPerShard after := by
  obtain ⟨moves, sized, rfl⟩ := reached
  refine ⟨moves ++ [.step thread], ?_, ?_⟩
  · intro other call member
    exact sized other call (by simpa using member)
  · rw [acts.step]
    unfold shardedLockRun clientRun
    rw [System.run_append]
    rfl

theorem sharded_calls_return (autoResize : Bool) (wyhash : Bytes → Word) (bucketsPerShard : Nat)
    (small : bucketsPerShard ≤ SyncMap.maxBuckets) (moves : ShardedMoves Key Value) (sized : moves.Sized) :
    (shardedLockRun autoResize wyhash bucketsPerShard moves).RunsOut ShardPoisoned := by
  have within : (shardedLockRun autoResize wyhash bucketsPerShard moves).Within (System.callers moves) :=
    System.within_run _ _ moves
  have opens := lock_service_opens (shardConfig autoResize wyhash)
  refine System.runs_out (fun _ _ _ => sharded_reached_acts) ?_ ?_ ⟨moves, sized, rfl⟩ within
  · rintro system ⟨later, sizedLater, rfl⟩ thread panicked
    obtain ⟨split, stage, splits, reached⟩ := sharded_lock_splits sizedLater
    obtain ⟨index, inside⟩ := clients_panic splits opens panicked
    refine ⟨index, ?_⟩
    rw [← splits.shared index]
    exact lock_reached_intact small (reached index) inside
  · rintro system ⟨later, sizedLater, rfl⟩ thread busy
    obtain ⟨split, stage, splits, reached⟩ := sharded_lock_splits sizedLater
    rcases clients_act splits opens busy with ⟨after, acts⟩ | ⟨index, inside⟩
    · exact ⟨thread, after, acts⟩
    · obtain ⟨other, after, acts⟩ := lock_reached_lively small (reached index) inside
      exact ⟨other, clients_follow splits acts⟩

end Runs

/-- Two threads in one shard while a third resizes all of them. -/
theorem sharded_calls_return_three_threads :
    let moves : ShardedMoves UInt32 UInt32 :=
      [.call 0 (.insert 7 70 0), .step 0, .step 0, .step 0, .call 1 (.get 7), .step 1, .step 1,
        .call 2 (.resizeAll 2), .step 2, .step 2, .step 2]
    moves.Sized ∧ (shardedLockRun true (fun _ => 0) 1 moves).RunsOut ShardPoisoned := by
  intro moves
  have sized : moves.Sized := by
    intro thread call member
    simp only [moves, List.mem_cons, Move.call.injEq, reduceCtorEq, List.not_mem_nil, or_false,
      false_or] at member
    rcases member with ⟨_, rfl⟩ | ⟨_, rfl⟩ | ⟨_, rfl⟩
    · change (keyBytes (7 : UInt32)).length + (valueBytes (70 : UInt32)).length < 2 ^ 32
      decide
    · trivial
    · trivial
  exact ⟨sized, sharded_calls_return true _ 1 (by decide) moves sized⟩

end PulseMap
