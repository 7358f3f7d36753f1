import PulseMap.Engine.Codec
import PulseMap.Sync.Attribution

/-!
The concurrent map on typed keys and values, and the sequential history of its calls.
The entries of the history stand in the order of the critical sections; each read that
finds something finds the value of the latest insert of its key.
-/

namespace PulseMap

/-! ### Schedules -/

theorem sync_run_append (config : SyncConfig) (numBuckets : Nat) (past future : SyncMoves) :
    syncRun config numBuckets (past ++ future) =
      (syncRun config numBuckets past).run (SyncCall.program config) future :=
  System.run_append ..

theorem sync_run_rely (config : SyncConfig) {numBuckets : Nat} (small : numBuckets ≤ 2 ^ 56)
    (past future : SyncMoves) (sized : SyncMoves.Sized (past ++ future)) {thread : Nat}
    (away : .step thread ∉ future) :
    SyncMap.Rely thread (syncRun config numBuckets past).shared
      (syncRun config numBuckets (past ++ future)).shared := by
  have holds := sync_run_holds config False small past
    (fun thread call member => sized thread call (by simp [member])) False.elim
  have relied := Protocol.run_rely (SyncCall.program config) SyncCall.Sized holds
    (fun thread before after rely idle => SyncMap.idle_stable rely idle)
    (fun thread call map sized _ idle => SyncMap.safe_program call sized idle) future thread away
    (fun _ _ _ => False.elim)
    (fun thread call member => sized thread call (by simp [member]))
  rw [← sync_run_append] at relied
  exact relied

theorem sync_run_history (config : SyncConfig) {numBuckets : Nat} (small : numBuckets ≤ 2 ^ 56)
    (past future : SyncMoves) (sized : SyncMoves.Sized (past ++ future)) :
    SyncMap.history (syncRun config numBuckets past).shared <+:
      SyncMap.history (syncRun config numBuckets (past ++ future)).shared := by
  let stepper : Move SyncCall → Option Nat := fun move => match move with
    | .step thread => some thread
    | .call _ _ => none
  obtain ⟨thread, away⟩ := Infinite.exists_notMem_finset (future.filterMap stepper).toFinset
  have absent : .step thread ∉ future := by
    intro member
    apply away
    simp only [List.mem_toFinset, List.mem_filterMap]
    exact ⟨_, member, rfl⟩
  exact (sync_run_rely config small past future sized absent).history

theorem sync_run_obeys (config : SyncConfig) {numBuckets : Nat} (small : numBuckets ≤ 2 ^ 56)
    (past : SyncMoves) (sized : SyncMoves.Sized past) (thread : Nat) :
    SyncMap.Obeys config thread (syncRun config numBuckets past).shared
      (syncRun config numBuckets (past ++ [.step thread])).shared := by
  have holds := sync_run_holds config False small past sized False.elim
  have moved : syncRun config numBuckets (past ++ [.step thread]) =
      (syncRun config numBuckets past).step thread := sync_run_append config numBuckets past _
  rw [moved]
  rcases Protocol.step_guarantee holds (fun impossible => impossible.elim) thread with same | guarantee
  · exact SyncMap.obeys_content (congrArg (fun map => map.layout.content) same)
      (congrArg SyncMap.history same)
  · exact guarantee.obeys

/-! ### Typed calls -/

/-- The calls of `ConcurrentPulseMap<K, V>`; `insert` passes the ttl `0`. -/
inductive TypedCall (Key Value : Type) where
  | insert (key : Key) (value : Value) (ttl : Word)
  | get (key : Key)
  | peek (key : Key)
  | containsKey (key : Key)
  | remove (key : Key)
  | resize (newNumBuckets : Nat)
  | setTtl (ttl : Word)
  | capacity

variable {Key Value : Type} [PulseKey Key] [PulseValue Value]

namespace TypedCall

def encode : TypedCall Key Value → SyncCall
  | insert key value ttl => .insert (keyBytes key) (valueBytes value) ttl
  | get key => .get (keyBytes key)
  | peek key => .peek (keyBytes key)
  | containsKey key => .peek (keyBytes key)
  | remove key => .remove (keyBytes key)
  | resize newNumBuckets => .resize newNumBuckets
  | setTtl ttl => .setTtl ttl
  | capacity => .capacity

def Sized : TypedCall Key Value → Prop
  | insert key value _ => (keyBytes key).length + (valueBytes value).length < 2 ^ 32
  | _ => True

end TypedCall

/-- The value that `get` or `peek` returns: `V::from_bytes` of the bytes found. -/
def SyncResult.found : SyncResult → Option Value
  | .value bytes => bytes.bind PulseValue.codec.fromBytes
  | _ => none

abbrev TypedMoves (Key Value : Type) := List (Move (TypedCall Key Value))

namespace TypedMoves

def encode (moves : TypedMoves Key Value) : SyncMoves := moves.map (Move.map TypedCall.encode)

def Sized (moves : TypedMoves Key Value) : Prop :=
  ∀ thread call, .call thread call ∈ moves → call.Sized

theorem encode_append (past future : TypedMoves Key Value) :
    encode (past ++ future) = past.encode ++ future.encode := List.map_append

theorem mem_encode {moves : TypedMoves Key Value} {thread : Nat} {request : SyncCall}
    (member : .call thread request ∈ moves.encode) :
    ∃ call : TypedCall Key Value, .call thread call ∈ moves ∧ call.encode = request := by
  obtain ⟨move, found, same⟩ := List.mem_map.mp member
  cases move with
  | step other => simp [Move.map] at same
  | call other call =>
      obtain ⟨rfl, rfl⟩ : other = thread ∧ call.encode = request := by simpa [Move.map] using same
      exact ⟨call, found, rfl⟩

theorem encode_sized {moves : TypedMoves Key Value} (sized : moves.Sized) : moves.encode.Sized := by
  intro thread request member
  obtain ⟨call, found, rfl⟩ := mem_encode member
  have fits := sized thread call found
  cases call <;> exact fits

end TypedMoves

def typedRun (config : SyncConfig) (numBuckets : Nat) (moves : TypedMoves Key Value) : SyncMap :=
  (syncRun config numBuckets moves.encode).shared

/-- The latest insert of the key in the history has this value, and nothing has ended the
binding since. -/
def Latest (history : List HistoryEntry) (key : Key) (value : Value) : Prop :=
  ∃ past entry future victim, history = past ++ entry :: future ∧
    entry.event = .insert (keyBytes key) (valueBytes value) victim ∧
    ∀ later ∈ future, ¬ later.event.Inserts (keyBytes key) ∧ ¬ later.event.Ends (keyBytes key)

/-- The history of a schedule is a sequential run of its calls. -/
structure Linearizable (config : SyncConfig) (numBuckets : Nat) (moves : TypedMoves Key Value)
    (map : SyncMap) : Prop where
  /-- Every entry belongs to a call of the schedule, under its key and value. -/
  attributed : ∀ entry ∈ map.history, ∃ call : TypedCall Key Value, .call entry.thread call ∈ moves ∧
    ⟨entry.thread, entry.call, call.encode⟩ ∈ map.started ∧ entry.event.Of call.encode
  /-- Calls are numbered apart, and no call but a growth has two entries. -/
  once : (map.started.map fun call => (call.thread, call.call)).Nodup ∧
    (SyncMap.owned map.history).Nodup
  /-- The entry of every call that has returned says what it returned. -/
  answered : ∀ call ∈ map.returned, call.Answered map.history
  /-- A lookup that returns a value returns the one of the latest insert of its key. -/
  lookups : ∀ past entry future (key : Key) bytes, map.history = past ++ entry :: future →
    entry.event = .read (keyBytes key) (some bytes) →
    ∃ value : Value, (SyncResult.value (some bytes)).found = some value ∧ Latest past key value
  /-- A removal returns `true` iff the key is stored at that point. -/
  removals : ∀ past entry future (key : Key) found, map.history = past ++ entry :: future →
    entry.event = .remove (keyBytes key) found →
    (found = true ↔ (bindings past (keyBytes key)).isSome)
  /-- The slots hold exactly the bindings of the history. -/
  stored : map.layout.Invariant config map.transit ∧ map.layout.Reflects map.history
  /-- What is in the history once stays there, in its place. -/
  ordered : ∀ past future, moves = past ++ future →
    (typedRun config numBuckets past).history <+: map.history
  /-- Each step adds at most one event, inside its critical section, and ends a binding
  only by a removal or an eviction there. -/
  sections : ∀ past thread future, moves = past ++ .step thread :: future →
    SyncMap.Obeys config thread (typedRun config numBuckets past)
      (typedRun config numBuckets (past ++ [.step thread]))

theorem Linearizable.inserted {moves : TypedMoves Key Value} {map : SyncMap}
    (attributed : ∀ entry ∈ map.history, ∃ call : TypedCall Key Value,
      .call entry.thread call ∈ moves ∧
      ⟨entry.thread, entry.call, call.encode⟩ ∈ map.started ∧ entry.event.Of call.encode)
    {entry : HistoryEntry} (member : entry ∈ map.history) {key bytes : Bytes} {victim : Option Bytes}
    (event : entry.event = .insert key bytes victim) : ∃ value : Value, bytes = valueBytes value := by
  obtain ⟨call, _, _, belongs⟩ := attributed entry member
  rw [event] at belongs
  cases call with
  | insert name value ttl => exact ⟨value, belongs.2⟩
  | _ => exact belongs.elim

theorem concurrent_linearizable (config : SyncConfig) (numBuckets : Nat)
    (small : numBuckets ≤ SyncMap.maxBuckets) (moves : TypedMoves Key Value) (sized : moves.Sized) :
    Linearizable config numBuckets moves (typedRun config numBuckets moves) := by
  have encoded := TypedMoves.encode_sized sized
  have invariant := (sync_run_holds config False small moves.encode encoded False.elim).invariant
  have calls := SyncMap.run_attributed config numBuckets moves.encode
  have attributed : ∀ entry ∈ (typedRun config numBuckets moves).history,
      ∃ call : TypedCall Key Value, .call entry.thread call ∈ moves ∧
        ⟨entry.thread, entry.call, call.encode⟩ ∈ (typedRun config numBuckets moves).started ∧
        entry.event.Of call.encode := by
    intro entry member
    obtain ⟨request, started, belongs⟩ := calls.entries entry member
    obtain ⟨call, found, rfl⟩ := TypedMoves.mem_encode (calls.scheduled _ started)
    exact ⟨call, found, started, belongs⟩
  refine ⟨attributed, ⟨calls.once, invariant.recorded.once⟩, invariant.recorded.answered, ?_, ?_,
    ⟨invariant.layout, invariant.reflects⟩, ?_, ?_⟩
  · intro past entry future key bytes split event
    have legal := invariant.recorded.legal past entry future split
    rw [event] at legal
    obtain ⟨before, insertion, since, victim, place, inserted, untouched⟩ := bound_since legal
    have member : insertion ∈ (typedRun config numBuckets moves).history := by
      rw [split, place]
      simp
    obtain ⟨value, rfl⟩ := Linearizable.inserted attributed member inserted
    exact ⟨value, PulseValue.codec.decodes value, before, insertion, since, victim, place, inserted,
      untouched⟩
  · intro past entry future key found split event
    have legal := invariant.recorded.legal past entry future split
    rwa [event] at legal
  · intro past future split
    have whole : past.encode ++ future.encode = moves.encode := by
      rw [split, TypedMoves.encode_append]
    have grown := sync_run_history config small past.encode future.encode (by rw [whole]; exact encoded)
    rw [whole] at grown
    exact grown
  · intro past thread future split
    have obeys := sync_run_obeys config small past.encode (TypedMoves.encode_sized fun other call member =>
      sized other call (by rw [split]; simp [member])) thread
    rw [typedRun, typedRun, TypedMoves.encode_append]
    exact obeys

/-- Two threads on one key: the lookup begins first and finds what is inserted meanwhile. -/
theorem concurrent_linearizable_two_threads :
    let moves : TypedMoves UInt32 UInt32 := [.call 1 (.get 7), .step 1, .call 0 (.insert 7 70 0)] ++
      List.replicate 10 (.step 0) ++ List.replicate 4 (.step 1) ++ List.replicate 20 (.step 0) ++
      List.replicate 20 (.step 1)
    let map := typedRun ⟨false, false, fun _ => 0⟩ 1 moves
    moves.Sized ∧ Linearizable ⟨false, false, fun _ => 0⟩ 1 moves map ∧
      map.returned.map (fun call => (call.thread, call.result)) =
        [(0, .done), (1, .value (some (valueBytes (70 : UInt32))))] := by
  intro moves map
  have sized : moves.Sized := by
    intro thread call member
    simp only [moves, List.append_assoc, List.cons_append, List.nil_append, List.mem_cons,
      Move.call.injEq, List.mem_append, List.mem_replicate, reduceCtorEq, and_false, or_false,
      false_or] at member
    rcases member with ⟨_, rfl⟩ | ⟨_, rfl⟩
    · trivial
    · change (keyBytes (7 : UInt32)).length + (valueBytes (70 : UInt32)).length < 2 ^ 32
      decide
  exact ⟨sized, concurrent_linearizable _ 1 (by decide) moves sized, by decide +kernel⟩

end PulseMap
