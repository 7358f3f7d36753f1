import PulseMap.Library.Splitting
import PulseMap.Sync.Linearizable
import PulseMap.Sync.Sharding

/-!
`sharded.rs`: sixteen concurrent maps, each key in one of them. A call of the sharded map is
one call of the key's shard, or one call or look of every shard in turn; nothing spans
two shards. A vector of shards is a function here, of which only the part below
`numShards` is used.
-/

namespace PulseMap

variable {Key Value : Type} [PulseKey Key] [PulseValue Value]

/-- The calls of `ShardedPulseMap<K, V>`; `insert` passes the ttl `0`. -/
inductive ShardedCall (Key Value : Type) where
  | insert (key : Key) (value : Value) (ttl : Word)
  | get (key : Key)
  | peek (key : Key)
  | containsKey (key : Key)
  | remove (key : Key)
  | resizeAll (newBucketsPerShard : Nat)
  | setTtl (ttl : Word)
  | getTtl
  | currentEpoch
  | len
  | isEmpty
  | capacity
  | loadFactor
  deriving DecidableEq

inductive ShardedResult (Value : Type) where
  | done
  | value (found : Option Value)
  | contains (found : Bool)
  | removed (found : Bool)
  | word (word : Word)
  | number (number : Nat)
  | empty (empty : Bool)
  /-- The two numbers whose quotient `load_factor` returns. -/
  | load (len capacity : Nat)
  deriving DecidableEq

namespace SyncResult

def wasRemoved : SyncResult → Bool
  | .removed found => found
  | _ => false

def slots : SyncResult → Nat
  | .size slots => slots
  | _ => 0

end SyncResult

/-- A whole call that returns what it notes. -/
def SyncCall.answered (config : SyncConfig) (call : SyncCall) : SyncProgram config SyncResult := do
  SyncProgram.atomic (.begin call)
  let result ← call.body config
  SyncProgram.atomic (.finish call result)
  pure result

abbrev ShardedNote (Key Value : Type) := ShardedCall Key Value × ShardedResult Value

abbrev ShardedScript (config : SyncConfig) (Key Value : Type) :=
  Script (syncMachine config) Nat SyncCall SyncResult (ShardedNote Key Value)

namespace ShardedScript

variable {config : SyncConfig}

def lenQuery (config : SyncConfig) : Query (syncMachine config) where
  action := .loadCount
  answers := fun _ map => ⟨SyncMap.count map, rfl⟩

def epochQuery (config : SyncConfig) : Query (syncMachine config) where
  action := .loadEpoch
  answers := fun _ map => ⟨SyncMap.currentEpoch map, rfl⟩

def ttlQuery (config : SyncConfig) : Query (syncMachine config) where
  action := .loadDefaultTtl
  answers := fun _ map => ⟨SyncMap.defaultTtl map, rfl⟩

def askAll (call : SyncCall) : List Nat → (List SyncResult → ShardedScript config Key Value) →
    ShardedScript config Key Value
  | [], next => next []
  | shard :: rest, next => .call shard call fun answer =>
      askAll call rest fun answers => next (answer :: answers)

def lookAll (query : Query (syncMachine config)) : List Nat →
    (List ((syncMachine config).Response query.action) → ShardedScript config Key Value) →
    ShardedScript config Key Value
  | [], next => next []
  | shard :: rest, next => .look shard query fun answer =>
      lookAll query rest fun answers => next (answer :: answers)

/-- `all(|s| s.is_empty())` stops at the first shard that is not empty. -/
def allEmpty : List Nat → (Bool → ShardedScript config Key Value) → ShardedScript config Key Value
  | [], next => next true
  | shard :: rest, next => .look shard (lenQuery config) fun (count : Nat) =>
      if count = 0 then allEmpty rest next else next false

end ShardedScript

def shards : List Nat := List.range numShards

/-- `max` of the epochs, and `0` without any. -/
def latestEpoch (epochs : List Word) : Word :=
  epochs.foldl (fun latest epoch => if latest ≤ epoch then epoch else latest) 0

open ShardedScript in
def ShardedCall.script (config : SyncConfig) (call : ShardedCall Key Value) :
    ShardedScript config Key Value :=
  match call with
  | insert key value ttl =>
      .call (shardFor config.wyhash (keyBytes key)) (.insert (keyBytes key) (valueBytes value) ttl)
        fun _ => .done (call, .done)
  | get key =>
      .call (shardFor config.wyhash (keyBytes key)) (.get (keyBytes key)) fun answer =>
        .done (call, .value answer.found)
  | peek key =>
      .call (shardFor config.wyhash (keyBytes key)) (.peek (keyBytes key)) fun answer =>
        .done (call, .value answer.found)
  | containsKey key =>
      .call (shardFor config.wyhash (keyBytes key)) (.peek (keyBytes key)) fun answer =>
        .done (call, .contains (answer.found : Option Value).isSome)
  | remove key =>
      .call (shardFor config.wyhash (keyBytes key)) (.remove (keyBytes key)) fun answer =>
        .done (call, .removed answer.wasRemoved)
  | resizeAll newBucketsPerShard =>
      askAll (.resize newBucketsPerShard) shards fun _ => .done (call, .done)
  | setTtl ttl => askAll (.setTtl ttl) shards fun _ => .done (call, .done)
  | getTtl => .look 0 (ttlQuery config) fun (ttl : Word) => .done (call, .word ttl)
  | currentEpoch => lookAll (epochQuery config) shards fun (epochs : List Word) =>
      .done (call, .word (latestEpoch epochs))
  | len => lookAll (lenQuery config) shards fun (counts : List Nat) =>
      .done (call, .number counts.sum)
  | isEmpty => allEmpty shards fun empty => .done (call, .empty empty)
  | capacity => askAll .capacity shards fun answers =>
      .done (call, .number (answers.map SyncResult.slots).sum)
  | loadFactor => askAll .capacity shards fun answers =>
      lookAll (lenQuery config) shards fun (counts : List Nat) =>
        .done (call, .load counts.sum (answers.map SyncResult.slots).sum)

/-- What a concurrent map has recorded of one thread. -/
structure ThreadRecord where
  calls : Nat
  entries : List HistoryEntry
  returned : List ReturnedCall

namespace SyncMap

def recordOf (thread : Nat) (map : SyncMap) : ThreadRecord where
  calls := map.calls thread
  entries := map.history.filter (·.thread = thread)
  returned := map.returned.filter (·.thread = thread)

theorem perform_record {config : SyncConfig} {thread mover : Nat} {action : SyncAction}
    {map after : SyncMap} {response : action.Response}
    (performed : map.perform config mover action = some (response, after)) (different : thread ≠ mover) :
    after.recordOf thread = map.recordOf thread := by
  have entry : ∀ (history : List HistoryEntry) number event,
      (history ++ [(⟨mover, number, event⟩ : HistoryEntry)]).filter (·.thread = thread) =
        history.filter (·.thread = thread) := by
    intro history number event
    simp [Ne.symm different]
  cases action <;> simp only [perform] at performed
  case begin request =>
    cases performed
    simp [recordOf, different]
  case finish request result =>
    cases performed
    simp [recordOf, Ne.symm different]
  case updateSlot =>
    cases performed
    exact congrArg (ThreadRecord.mk _ · _) (entry _ _ _)
  case placeSlot =>
    cases performed
    exact congrArg (ThreadRecord.mk _ · _) (entry _ _ _)
  case clearSlot =>
    cases performed
    exact congrArg (ThreadRecord.mk _ · _) (entry _ _ _)
  case commit =>
    cases performed
    exact congrArg (ThreadRecord.mk _ · _) (entry _ _ _)
  all_goals
    (repeat' split at performed) <;> cases performed <;> rfl

end SyncMap

namespace ThreadRecord

/-- What the thread has left in the history since, inside its current call. -/
structure During (request : SyncCall) (before after : ThreadRecord) : Prop where
  calls : after.calls = before.calls
  entries : ∃ added, after.entries = before.entries ++ added ∧
    ∀ entry ∈ added, entry.call = after.calls ∧ entry.event.Of request

/-- One more call of the thread, under the next number. -/
structure Serves (thread : Nat) (request : SyncCall) (answer : SyncResult)
    (before after : ThreadRecord) : Prop where
  calls : after.calls = before.calls + 1
  entries : ∃ added, after.entries = before.entries ++ added ∧
    ∀ entry ∈ added, entry.call = after.calls ∧ entry.event.Of request
  answered : ⟨thread, after.calls, request, answer⟩ ∈ after.returned

variable {request : SyncCall} {first second third : ThreadRecord}

theorem during_refl (record : ThreadRecord) : During request record record :=
  ⟨rfl, [], (List.append_nil _).symm, by simp⟩

theorem During.trans (early : During request first second) (late : During request second third) :
    During request first third := by
  obtain ⟨added, grown, own⟩ := early.entries
  obtain ⟨more, further, owned⟩ := late.entries
  refine ⟨late.calls.trans early.calls, added ++ more, by rw [further, grown, List.append_assoc], ?_⟩
  intro entry member
  rcases List.mem_append.mp member with old | new
  · rw [late.calls]
    exact own entry old
  · exact owned entry new

end ThreadRecord

def syncRecord (config : SyncConfig) : Record (syncMachine config) where
  Own := ThreadRecord
  own := SyncMap.recordOf
  others := SyncMap.perform_record

theorem perform_during {config : SyncConfig} {thread : Nat} {action : SyncAction} {map after : SyncMap}
    {response : action.Response} {request : SyncCall} (permits : request.Permits action)
    (performed : map.perform config thread action = some (response, after)) :
    ThreadRecord.During request (map.recordOf thread) (after.recordOf thread) := by
  obtain ⟨calls, _, history⟩ := SyncMap.perform_history permits performed
  refine ⟨congrFun calls thread, ?_⟩
  rcases history with same | ⟨event, belongs, grown⟩
  · exact ⟨[], by simp [SyncMap.recordOf, same], by simp⟩
  · refine ⟨[⟨thread, map.calls thread, event⟩], by simp [SyncMap.recordOf, grown], ?_⟩
    intro entry member
    rw [List.mem_singleton.mp member]
    exact ⟨(congrFun calls thread).symm, belongs⟩

theorem runs_during {config : SyncConfig} {Result : Type} {request : SyncCall} {thread : Nat}
    {program : SyncProgram config Result} {own : ThreadRecord} (runs : request.Runs program) :
    program.Ends (syncRecord config) thread (fun _ later => ThreadRecord.During request own later) own := by
  suffices ends : ∀ now, ThreadRecord.During request own now → program.Ends (syncRecord config) thread
      (fun _ later => ThreadRecord.During request own later) now from
    ends own (ThreadRecord.during_refl own)
  induction program with
  | done result => exact fun now during => during
  | panic => exact fun _ _ => trivial
  | act action rest induction =>
      rintro now during shared response after rfl performed
      exact induction response (runs.2 response) _ (during.trans (perform_during runs.1 performed))

/-- An answered call of a shard is the next call of its thread there. -/
def shardService (config : SyncConfig) : Service (syncMachine config) SyncCall SyncResult where
  work := SyncCall.answered config
  record := syncRecord config
  Serves := ThreadRecord.Serves
  ends := by
    intro thread call own shared _ after same performed
    have begun : SyncMap.recordOf thread after = { own with calls := own.calls + 1 } := by
      rw [← same]
      cases performed
      simp [syncRecord, SyncMap.recordOf]
    change (call.body config >>= fun result => SyncProgram.atomic (.finish call result) >>= fun _ =>
      pure result).Ends (syncRecord config) thread _ (SyncMap.recordOf thread after)
    refine Program.ends_bind (runs_during (SyncCall.runs_body call)) ?_
    intro result later during left _ final here ended
    obtain ⟨added, grown, belongs⟩ := during.entries
    have calls := during.calls
    rw [begun] at grown calls
    subst here
    cases ended
    refine ⟨calls, ⟨added, grown, belongs⟩, ?_⟩
    simp [syncRecord, SyncMap.recordOf]

/-- The configuration of `new_shard`. -/
def shardConfig (autoResize : Bool) (wyhash : Bytes → Word) : SyncConfig := ⟨autoResize, true, wyhash⟩

abbrev ShardedMoves (Key Value : Type) := List (Move (ShardedCall Key Value))

def shardedRun (autoResize : Bool) (wyhash : Bytes → Word) (bucketsPerShard : Nat)
    (moves : ShardedMoves Key Value) :
    System ((syncMachine (shardConfig autoResize wyhash)).copies Nat (ShardedNote Key Value)) :=
  clientRun (shardService (shardConfig autoResize wyhash)) (SyncMap.new bucketsPerShard)
    (ShardedCall.script (shardConfig autoResize wyhash)) moves

/-! ### What the scripts ask -/

def SyncCall.key : SyncCall → Option Bytes
  | insert key _ _ => some key
  | get key => some key
  | peek key => some key
  | remove key => some key
  | _ => none

def SyncEvent.key : SyncEvent → Option Bytes
  | insert key _ _ => some key
  | read key _ => some key
  | remove key _ => some key
  | resize => none

theorem SyncEvent.Of.same_key {call : SyncCall} {event : SyncEvent} {key : Bytes}
    (belongs : event.Of call) (about : event.key = some key) : call.key = some key := by
  cases event with
  | resize => cases about
  | insert name value victim =>
      cases about
      cases call with
      | insert _ _ _ => exact congrArg some belongs.1.symm
      | _ => exact belongs.elim
  | read name found =>
      cases about
      cases call with
      | get _ => exact congrArg some (Eq.symm belongs)
      | peek _ => exact congrArg some (Eq.symm belongs)
      | _ => exact belongs.elim
  | remove name found =>
      cases about
      cases call with
      | remove _ => exact congrArg some (Eq.symm belongs)
      | _ => exact belongs.elim

def ShardedCall.Sized : ShardedCall Key Value → Prop
  | insert key value _ => (keyBytes key).length + (valueBytes value).length < 2 ^ 32
  | _ => True

namespace ShardedScript

variable {config : SyncConfig} {index : Nat} {request : SyncCall}

section Asks

omit [PulseKey Key] [PulseValue Value]

theorem asks_all {call : SyncCall} {indices : List Nat}
    {next : List SyncResult → ShardedScript config Key Value}
    (asks : (askAll call indices next).Asks index request) :
    request = call ∨ ∃ answers, (next answers).Asks index request := by
  induction indices generalizing next with
  | nil => exact Or.inr ⟨[], asks⟩
  | cons shard rest induction =>
      rcases asks with ⟨_, same⟩ | ⟨answer, later⟩
      · exact Or.inl same.symm
      · rcases induction later with same | ⟨answers, last⟩
        · exact Or.inl same
        · exact Or.inr ⟨_, last⟩

theorem asks_look_all {query : Query (syncMachine config)} {indices : List Nat}
    {next : List ((syncMachine config).Response query.action) → ShardedScript config Key Value}
    (asks : (lookAll query indices next).Asks index request) :
    ∃ answers, (next answers).Asks index request := by
  induction indices generalizing next with
  | nil => exact ⟨[], asks⟩
  | cons shard rest induction =>
      obtain ⟨answer, later⟩ := asks
      obtain ⟨answers, last⟩ := induction later
      exact ⟨_, last⟩

theorem asks_all_empty {indices : List Nat} {next : Bool → ShardedScript config Key Value}
    (asks : (allEmpty indices next).Asks index request) : ∃ answer, (next answer).Asks index request := by
  induction indices with
  | nil => exact ⟨true, asks⟩
  | cons shard rest induction =>
      obtain ⟨(count : Nat), later⟩ := asks
      change Script.Asks (if count = 0 then allEmpty rest next else next false) index request at later
      split_ifs at later
      · exact induction later
      · exact ⟨false, later⟩

end Asks

/-- What a call of the sharded map asks its shards: a keyed call only the shard of its key. -/
inductive Routes (config : SyncConfig) : ShardedCall Key Value → Nat → SyncCall → Prop
  | insert (key : Key) (value : Value) (ttl : Word) : Routes config (.insert key value ttl)
      (shardFor config.wyhash (keyBytes key)) (.insert (keyBytes key) (valueBytes value) ttl)
  | get (key : Key) : Routes config (.get key) (shardFor config.wyhash (keyBytes key)) (.get (keyBytes key))
  | peek (key : Key) :
      Routes config (.peek key) (shardFor config.wyhash (keyBytes key)) (.peek (keyBytes key))
  | containsKey (key : Key) :
      Routes config (.containsKey key) (shardFor config.wyhash (keyBytes key)) (.peek (keyBytes key))
  | remove (key : Key) :
      Routes config (.remove key) (shardFor config.wyhash (keyBytes key)) (.remove (keyBytes key))
  | resizeAll (size index : Nat) : Routes config (.resizeAll size) index (.resize size)
  | setTtl (ttl : Word) (index : Nat) : Routes config (.setTtl ttl) index (.setTtl ttl)
  | capacity (index : Nat) : Routes config .capacity index .capacity
  | loadFactor (index : Nat) : Routes config .loadFactor index .capacity

theorem asks_routes {call : ShardedCall Key Value} (asks : (call.script config).Asks index request) :
    Routes config call index request := by
  have keyed : ∀ {shard : Nat} {sent : SyncCall} {next : SyncResult → ShardedNote Key Value},
      (Script.call shard sent fun answer => .done (next answer) : ShardedScript config Key Value).Asks
        index request → index = shard ∧ request = sent := by
    rintro shard sent next (⟨same, whole⟩ | ⟨_, impossible⟩)
    · exact ⟨same.symm, whole.symm⟩
    · exact impossible.elim
  cases call with
  | insert key value ttl =>
      obtain ⟨rfl, rfl⟩ := keyed asks
      exact .insert key value ttl
  | get key =>
      obtain ⟨rfl, rfl⟩ := keyed asks
      exact .get key
  | peek key =>
      obtain ⟨rfl, rfl⟩ := keyed asks
      exact .peek key
  | containsKey key =>
      obtain ⟨rfl, rfl⟩ := keyed asks
      exact .containsKey key
  | remove key =>
      obtain ⟨rfl, rfl⟩ := keyed asks
      exact .remove key
  | resizeAll size =>
      rcases asks_all asks with rfl | ⟨_, impossible⟩
      · exact .resizeAll size index
      · exact impossible.elim
  | setTtl ttl =>
      rcases asks_all asks with rfl | ⟨_, impossible⟩
      · exact .setTtl ttl index
      · exact impossible.elim
  | getTtl =>
      obtain ⟨_, impossible⟩ := asks
      exact impossible.elim
  | currentEpoch =>
      obtain ⟨_, impossible⟩ := asks_look_all asks
      exact impossible.elim
  | len =>
      obtain ⟨_, impossible⟩ := asks_look_all asks
      exact impossible.elim
  | isEmpty =>
      obtain ⟨_, impossible⟩ := asks_all_empty asks
      exact impossible.elim
  | capacity =>
      rcases asks_all asks with rfl | ⟨_, impossible⟩
      · exact .capacity index
      · exact impossible.elim
  | loadFactor =>
      rcases asks_all asks with rfl | ⟨_, looks⟩
      · exact .loadFactor index
      · obtain ⟨_, impossible⟩ := asks_look_all looks
        exact impossible.elim

theorem Routes.home {call : ShardedCall Key Value} {key : Bytes}
    (routes : Routes config call index request) (about : request.key = some key) :
    shardFor config.wyhash key = index := by
  cases routes <;> cases about <;> rfl

theorem Routes.sized {call : ShardedCall Key Value} (routes : Routes config call index request)
    (sized : call.Sized) : request.Sized := by
  cases routes <;> exact sized

theorem Routes.encoded {call : ShardedCall Key Value} {name text : Bytes} {ttl : Word}
    (routes : Routes config call index (.insert name text ttl)) :
    ∃ (key : Key) (value : Value), keyBytes key = name ∧ valueBytes value = text := by
  cases routes with
  | insert key value ttl => exact ⟨key, value, rfl, rfl⟩

end ShardedScript

end PulseMap
