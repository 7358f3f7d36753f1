import PulseMap.Sync.Counters
import PulseMap.Sync.Sharded

/-!
The sharded map in any interleaving. Each shard has run a schedule of its own, with the calls
of its own keys, so what holds of one concurrent map holds of every shard; a key is only
ever in one of them, so the history of its shard is the history of the key.
-/

namespace PulseMap

variable {Key Value : Type} [PulseKey Key] [PulseValue Value]

theorem program_answered (config : SyncConfig) :
    Program.serve (SyncCall.answered config) = SyncCall.program config := by
  funext call
  change (SyncProgram.atomic (.begin call) >>= fun _ => call.body config >>= fun result =>
    SyncProgram.atomic (.finish call result) >>= fun _ => pure result) >>= (fun _ => .done ()) = _
  rw [Program.bind_assoc]
  refine congrArg (SyncProgram.atomic (.begin call) >>= ·) (funext fun _ => ?_)
  rw [Program.bind_assoc]
  rfl

/-! ### What a note says -/

abbrev ShardTrace := List (Nat × SyncCall × SyncResult)

namespace ShardedScript

variable {config : SyncConfig} {trace : ShardTrace} {note : ShardedNote Key Value}

section Takes

omit [PulseKey Key] [PulseValue Value]

theorem takes_ask_all {call : SyncCall} {indices : List Nat}
    {next : List SyncResult → ShardedScript config Key Value}
    (takes : (askAll call indices next).Takes trace note) :
    ∃ answers rest, answers.length = indices.length ∧
      trace = indices.zipWith (fun index answer => (index, call, answer)) answers ++ rest ∧
      (next answers).Takes rest note := by
  induction indices generalizing next trace with
  | nil => exact ⟨[], trace, rfl, rfl, takes⟩
  | cons shard rest induction =>
      cases takes with
      | call later =>
          obtain ⟨answers, left, same, rfl, last⟩ := induction later
          exact ⟨_ :: answers, left, by rw [List.length_cons, List.length_cons, same], rfl, last⟩

theorem takes_look_all {query : Query (syncMachine config)} {indices : List Nat}
    {next : List ((syncMachine config).Response query.action) → ShardedScript config Key Value}
    (takes : (lookAll query indices next).Takes trace note) :
    ∃ answers, (next answers).Takes trace note := by
  induction indices generalizing next with
  | nil => exact ⟨[], takes⟩
  | cons shard rest induction =>
      cases takes with
      | look later =>
          obtain ⟨answers, last⟩ := induction later
          exact ⟨_, last⟩

theorem takes_all_empty {indices : List Nat} {next : Bool → ShardedScript config Key Value}
    (takes : (allEmpty indices next).Takes trace note) : ∃ answer, (next answer).Takes trace note := by
  induction indices with
  | nil => exact ⟨true, takes⟩
  | cons shard rest induction =>
      cases takes with
      | @look _ _ _ count _ _ later =>
          change Script.Takes (if (show Nat from count) = 0 then allEmpty rest next else next false)
            trace note at later
          split_ifs at later
          · exact induction later
          · exact ⟨false, later⟩

theorem takes_done {result : ShardedNote Key Value}
    (takes : (Script.done result : ShardedScript config Key Value).Takes trace note) :
    trace = [] ∧ note = result := by
  cases takes
  exact ⟨rfl, rfl⟩

theorem takes_keyed {shard : Nat} {sent : SyncCall} {next : SyncResult → ShardedNote Key Value}
    (takes : (Script.call shard sent fun answer => .done (next answer) :
      ShardedScript config Key Value).Takes trace note) :
    ∃ answer, trace = [(shard, sent, answer)] ∧ note = next answer := by
  cases takes with
  | call later =>
      obtain ⟨rfl, same⟩ := takes_done later
      exact ⟨_, rfl, same⟩

end Takes

/-- The calls that go to every shard. -/
inductive Broadcast (answers : List SyncResult) :
    SyncCall → ShardedCall Key Value → ShardedResult Value → Prop
  | resizeAll (size : Nat) : Broadcast answers (.resize size) (.resizeAll size) .done
  | setTtl (ttl : Word) : Broadcast answers (.setTtl ttl) (.setTtl ttl) .done
  | capacity : Broadcast answers .capacity .capacity (.number (answers.map SyncResult.slots).sum)
  | loadFactor (len : Nat) :
      Broadcast answers .capacity .loadFactor (.load len (answers.map SyncResult.slots).sum)

/-- The calls that only look at the shards. -/
inductive Looks : ShardedCall Key Value → ShardedResult Value → Prop
  | getTtl (ttl : Word) : Looks .getTtl (.word ttl)
  | currentEpoch (epoch : Word) : Looks .currentEpoch (.word epoch)
  | len (number : Nat) : Looks .len (.number number)
  | isEmpty (empty : Bool) : Looks .isEmpty (.empty empty)

inductive Traces (config : SyncConfig) :
    ShardTrace → ShardedCall Key Value → ShardedResult Value → Prop
  | insert (key : Key) (value : Value) (ttl : Word) (answer : SyncResult) :
      Traces config [(shardFor config.wyhash (keyBytes key),
        .insert (keyBytes key) (valueBytes value) ttl, answer)] (.insert key value ttl) .done
  | get (key : Key) (answer : SyncResult) :
      Traces config [(shardFor config.wyhash (keyBytes key), .get (keyBytes key), answer)]
        (.get key) (.value answer.found)
  | peek (key : Key) (answer : SyncResult) :
      Traces config [(shardFor config.wyhash (keyBytes key), .peek (keyBytes key), answer)]
        (.peek key) (.value answer.found)
  | containsKey (key : Key) (answer : SyncResult) :
      Traces config [(shardFor config.wyhash (keyBytes key), .peek (keyBytes key), answer)]
        (.containsKey key) (.contains (answer.found : Option Value).isSome)
  | remove (key : Key) (answer : SyncResult) :
      Traces config [(shardFor config.wyhash (keyBytes key), .remove (keyBytes key), answer)]
        (.remove key) (.removed answer.wasRemoved)
  | broadcast {request : SyncCall} {call : ShardedCall Key Value} {answers : List SyncResult}
      {result : ShardedResult Value} (same : answers.length = shards.length)
      (broadcast : Broadcast answers request call result) :
      Traces config (shards.zipWith (fun index answer => (index, request, answer)) answers) call result
  | looks {call : ShardedCall Key Value} {result : ShardedResult Value} (looks : Looks call result) :
      Traces config [] call result

theorem takes_broadcast {request : SyncCall} {call : ShardedCall Key Value}
    {next : List SyncResult → ShardedScript config Key Value}
    (takes : (askAll request shards next).Takes trace note)
    (ends : ∀ answers rest, (next answers).Takes rest note →
      rest = [] ∧ note.1 = call ∧ Broadcast answers request call note.2) :
    note.1 = call ∧ Traces config trace call note.2 := by
  obtain ⟨answers, rest, same, rfl, last⟩ := takes_ask_all takes
  obtain ⟨rfl, about, broadcast⟩ := ends answers rest last
  rw [List.append_nil]
  exact ⟨about, .broadcast same broadcast⟩

theorem takes_traces {call : ShardedCall Key Value} (takes : (call.script config).Takes trace note) :
    note.1 = call ∧ Traces config trace call note.2 := by
  cases call with
  | insert key value ttl =>
      obtain ⟨answer, rfl, rfl⟩ := takes_keyed takes
      exact ⟨rfl, .insert ..⟩
  | get key =>
      obtain ⟨answer, rfl, rfl⟩ := takes_keyed takes
      exact ⟨rfl, .get ..⟩
  | peek key =>
      obtain ⟨answer, rfl, rfl⟩ := takes_keyed takes
      exact ⟨rfl, .peek ..⟩
  | containsKey key =>
      obtain ⟨answer, rfl, rfl⟩ := takes_keyed takes
      exact ⟨rfl, .containsKey ..⟩
  | remove key =>
      obtain ⟨answer, rfl, rfl⟩ := takes_keyed takes
      exact ⟨rfl, .remove ..⟩
  | resizeAll size =>
      rw [ShardedCall.script] at takes
      refine takes_broadcast takes fun answers rest last => ?_
      obtain ⟨rfl, rfl⟩ := takes_done last
      exact ⟨rfl, rfl, .resizeAll size⟩
  | setTtl ttl =>
      rw [ShardedCall.script] at takes
      refine takes_broadcast takes fun answers rest last => ?_
      obtain ⟨rfl, rfl⟩ := takes_done last
      exact ⟨rfl, rfl, .setTtl ttl⟩
  | capacity =>
      rw [ShardedCall.script] at takes
      refine takes_broadcast takes fun answers rest last => ?_
      obtain ⟨rfl, rfl⟩ := takes_done last
      exact ⟨rfl, rfl, .capacity⟩
  | loadFactor =>
      rw [ShardedCall.script] at takes
      refine takes_broadcast takes fun answers rest looks => ?_
      obtain ⟨_, last⟩ := takes_look_all looks
      obtain ⟨rfl, rfl⟩ := takes_done last
      exact ⟨rfl, rfl, .loadFactor _⟩
  | getTtl =>
      cases takes with
      | look later =>
          obtain ⟨rfl, rfl⟩ := takes_done later
          exact ⟨rfl, .looks (.getTtl _)⟩
  | currentEpoch =>
      obtain ⟨_, last⟩ := takes_look_all takes
      obtain ⟨rfl, rfl⟩ := takes_done last
      exact ⟨rfl, .looks (.currentEpoch _)⟩
  | len =>
      obtain ⟨_, last⟩ := takes_look_all takes
      obtain ⟨rfl, rfl⟩ := takes_done last
      exact ⟨rfl, .looks (.len _)⟩
  | isEmpty =>
      obtain ⟨_, last⟩ := takes_all_empty takes
      obtain ⟨rfl, rfl⟩ := takes_done last
      exact ⟨rfl, .looks (.isEmpty _)⟩

end ShardedScript

/-! ### The shards -/

def ShardedMoves.Sized (moves : ShardedMoves Key Value) : Prop :=
  ∀ thread call, .call thread call ∈ moves → call.Sized

/-- A shard has run this schedule of calls that the sharded map has sent it. -/
structure ShardRuns (config : SyncConfig) (bucketsPerShard : Nat) (moves : ShardedMoves Key Value)
    (index : Nat) (schedule : SyncMoves) (shard : SyncMap) : Prop where
  sized : schedule.Sized
  state : (syncRun config bucketsPerShard schedule).shared = shard
  sent : ∀ thread request, .call thread request ∈ schedule →
    ∃ call, .call thread call ∈ moves ∧ ShardedScript.Routes config call index request

section Shards

variable {config : SyncConfig} {bucketsPerShard index : Nat} {moves : ShardedMoves Key Value}
  {schedule : SyncMoves} {shard : SyncMap}

theorem ShardRuns.invariant (runs : ShardRuns config bucketsPerShard moves index schedule shard)
    (small : bucketsPerShard ≤ SyncMap.maxBuckets) : shard.Invariant config False := by
  rw [← runs.state]
  exact (sync_run_holds config False small schedule runs.sized False.elim).invariant

theorem ShardRuns.entry (runs : ShardRuns config bucketsPerShard moves index schedule shard)
    {entry : HistoryEntry} (member : entry ∈ shard.history) :
    ∃ call request, .call entry.thread call ∈ moves ∧ ShardedScript.Routes config call index request ∧
      entry.event.Of request := by
  have attributed := SyncMap.run_attributed config bucketsPerShard schedule
  rw [runs.state] at attributed
  obtain ⟨request, started, belongs⟩ := attributed.entries entry member
  obtain ⟨call, called, routes⟩ := runs.sent _ _ (attributed.scheduled _ started)
  exact ⟨call, request, called, routes, belongs⟩

theorem ShardRuns.home (runs : ShardRuns config bucketsPerShard moves index schedule shard)
    {entry : HistoryEntry} (member : entry ∈ shard.history) {key : Bytes}
    (about : entry.event.key = some key) : shardFor config.wyhash key = index := by
  obtain ⟨call, request, _, routes, belongs⟩ := runs.entry member
  exact routes.home (belongs.same_key about)

theorem ShardRuns.bound (runs : ShardRuns config bucketsPerShard moves index schedule shard)
    {past later : List HistoryEntry} (split : shard.history = past ++ later) {name text : Bytes}
    (bound : bindings past name = some text) :
    shardFor config.wyhash name = index ∧
      ∃ value : Value, valueBytes value = text ∧
        ∃ before entry since victim, past = before ++ entry :: since ∧
          entry.event = .insert name text victim ∧
          ∀ event ∈ since, ¬event.event.Inserts name ∧ ¬event.event.Ends name := by
  obtain ⟨before, entry, since, victim, place, inserted, untouched⟩ := bound_since bound
  have member : entry ∈ shard.history := by
    rw [split, place]
    simp
  refine ⟨runs.home member (by rw [inserted]; rfl), ?_⟩
  obtain ⟨call, request, _, routes, belongs⟩ := runs.entry member
  rw [inserted] at belongs
  cases request with
  | insert key value ttl =>
      obtain ⟨rfl, rfl⟩ := belongs
      obtain ⟨_, value, _, same⟩ := routes.encoded
      exact ⟨value, same, before, entry, since, victim, place, inserted, untouched⟩
  | _ => exact belongs.elim

end Shards

section Runs

variable {autoResize : Bool} {wyhash : Bytes → Word} {bucketsPerShard : Nat}
  {past future moves : ShardedMoves Key Value} {split : Nat → SyncMoves}
  {stage : Nat → ClientStage (syncMachine (shardConfig autoResize wyhash)) Nat SyncCall SyncResult
    (ShardedNote Key Value)}

theorem splits_runs (sized : moves.Sized)
    (splits : Splits (shardService (shardConfig autoResize wyhash)) (SyncMap.new bucketsPerShard)
      (ShardedCall.script (shardConfig autoResize wyhash)) moves
      (shardedRun autoResize wyhash bucketsPerShard moves) split stage) (index : Nat) :
    ShardRuns (shardConfig autoResize wyhash) bucketsPerShard moves index (split index)
      (Copies.parts (shardedRun autoResize wyhash bucketsPerShard moves).shared index) := by
  have sent : ∀ thread request, .call thread request ∈ split index →
      ∃ call, .call thread call ∈ moves ∧
        ShardedScript.Routes (shardConfig autoResize wyhash) call index request := by
    intro thread request member
    obtain ⟨call, called, asks⟩ := splits.sent index thread request member
    exact ⟨call, called, ShardedScript.asks_routes asks⟩
  refine ⟨?_, ?_, sent⟩
  · intro thread request member
    obtain ⟨call, called, routes⟩ := sent thread request member
    exact routes.sized (sized thread call called)
  · have alone := splits.shared index
    unfold Service.alone at alone
    rw [show (shardService (shardConfig autoResize wyhash)).work =
      SyncCall.answered (shardConfig autoResize wyhash) from rfl, program_answered] at alone
    exact alone

variable (autoResize wyhash bucketsPerShard) in
theorem shards_run (sized : moves.Sized) :
    ∃ split stage, Splits (shardService (shardConfig autoResize wyhash))
        (SyncMap.new bucketsPerShard) (ShardedCall.script (shardConfig autoResize wyhash)) moves
        (shardedRun autoResize wyhash bucketsPerShard moves) split stage ∧
      ∀ index, ShardRuns (shardConfig autoResize wyhash) bucketsPerShard moves index (split index)
        (Copies.parts (shardedRun autoResize wyhash bucketsPerShard moves).shared index) := by
  obtain ⟨split, stage, splits⟩ := clients_split (shardService (shardConfig autoResize wyhash))
    (SyncMap.new bucketsPerShard) (ShardedCall.script (shardConfig autoResize wyhash)) moves
  exact ⟨split, stage, splits, splits_runs sized splits⟩

theorem shards_history (small : bucketsPerShard ≤ SyncMap.maxBuckets)
    (sized : ShardedMoves.Sized (past ++ future)) (index : Nat) :
    SyncMap.history (Copies.parts (shardedRun autoResize wyhash bucketsPerShard past).shared index) <+:
      SyncMap.history
        (Copies.parts (shardedRun autoResize wyhash bucketsPerShard (past ++ future)).shared index) := by
  have before : past.Sized := fun thread call member => sized thread call (by simp [member])
  obtain ⟨split, stage, splits, runs⟩ := shards_run autoResize wyhash bucketsPerShard before
  obtain ⟨later, standing, moved, more⟩ := splits_continue splits future
  obtain ⟨rest, whole⟩ := more index
  have late := splits_runs sized moved index
  rw [← (runs index).state, ← late.state, ← whole]
  exact sync_run_history _ small _ _ (by rw [whole]; exact late.sized)

end Runs

/-! ### What a returned call left in its history -/

namespace ReturnedCall

variable {history : List HistoryEntry} {thread number : Nat} {key value : Bytes} {ttl : Word}
  {answer : SyncResult}

theorem answered_insert
    (answered : (⟨thread, number, .insert key value ttl, answer⟩ : ReturnedCall).Answered history) :
    ∃ victim, ⟨thread, number, .insert key value victim⟩ ∈ history := by
  cases answer with
  | done => exact answered
  | _ => exact answered.elim

theorem answered_read {request : SyncCall} (reads : request = .get key ∨ request = .peek key)
    (answered : (⟨thread, number, request, answer⟩ : ReturnedCall).Answered history) :
    ∃ found, answer = .value found ∧ ⟨thread, number, .read key found⟩ ∈ history := by
  rcases reads with rfl | rfl
  · cases answer with
    | value found => exact ⟨found, rfl, answered⟩
    | _ => exact answered.elim
  · cases answer with
    | value found => exact ⟨found, rfl, answered⟩
    | _ => exact answered.elim

theorem answered_remove
    (answered : (⟨thread, number, .remove key, answer⟩ : ReturnedCall).Answered history) :
    ∃ found, answer = .removed found ∧ ⟨thread, number, .remove key found⟩ ∈ history := by
  cases answer with
  | removed found => exact ⟨found, rfl, answered⟩
  | _ => exact answered.elim

theorem answered_resize {size : Nat}
    (answered : (⟨thread, number, .resize size, answer⟩ : ReturnedCall).Answered history) :
    ⟨thread, number, .resize⟩ ∈ history := by
  cases answer with
  | done => exact answered
  | _ => exact answered.elim

end ReturnedCall

/-! ### The place of a call in a history -/

theorem placed_since {before after : List HistoryEntry} {entry : HistoryEntry} (grows : before <+: after)
    (member : entry ∈ after) (fresh : entry ∉ before) :
    ∃ past later, before <+: past ∧ after = past ++ entry :: later := by
  obtain ⟨past, later, split⟩ := List.append_of_mem member
  obtain ⟨rest, whole⟩ := grows
  refine ⟨past, later, ?_, split⟩
  rcases List.append_eq_append_iff.mp (whole.trans split) with ⟨since, same, _⟩ | ⟨since, same, left⟩
  · exact ⟨since, same.symm⟩
  · cases since with
    | nil => exact ⟨[], by rw [same, List.append_nil, List.append_nil]⟩
    | cons first others =>
        obtain rfl := (List.cons.inj left).1
        exact absurd (by rw [same]; simp) fresh

/-- The entries of one call, without the marks of growths. -/
def entriesOf (thread call : Nat) (history : List HistoryEntry) : List HistoryEntry :=
  (history.filter fun entry => entry.event ≠ .resize).filter fun entry =>
    (entry.thread, entry.call) = (thread, call)

theorem entries_of_one {history : List HistoryEntry} {entry : HistoryEntry}
    (once : (SyncMap.owned history).Nodup) (member : entry ∈ history) (keyed : entry.event ≠ .resize) :
    entriesOf entry.thread entry.call history = [entry] := by
  unfold SyncMap.owned at once
  unfold entriesOf
  have kept : entry ∈ history.filter fun entry => entry.event ≠ .resize := by simp [member, keyed]
  obtain ⟨past, later, split⟩ := List.append_of_mem kept
  rw [split] at once ⊢
  rw [List.map_append, List.map_cons, List.nodup_middle, List.nodup_cons, ← List.map_append] at once
  have absent : ∀ other ∈ past ++ later,
      ¬(other.thread, other.call) = (entry.thread, entry.call) := by
    intro other found same
    exact once.1 (List.mem_map.mpr ⟨other, found, same⟩)
  rw [List.filter_append, List.filter_cons_of_pos (by simp),
    List.filter_eq_nil_iff.mpr fun other found => by
      simpa using absent other (List.mem_append_left _ found),
    List.filter_eq_nil_iff.mpr fun other found => by
      simpa using absent other (List.mem_append_right _ found)]
  rfl

/-- Between two states of the shards the thread has made one call, of this shard, and its event
stands in the shard's history after these entries. -/
structure OneCall (thread index : Nat) (request : SyncCall) (event : SyncEvent)
    (past : List HistoryEntry) (before after : Nat → SyncMap) : Prop where
  once : ∃ answer, ThreadRecord.Serves thread request answer ((before index).recordOf thread)
    ((after index).recordOf thread)
  elsewhere : ∀ other, other ≠ index →
    (after other).recordOf thread = (before other).recordOf thread
  since : (before index).history <+: past
  placed : ∃ later,
    (after index).history = past ++ ⟨thread, (after index).calls thread, event⟩ :: later
  only : entriesOf thread ((after index).calls thread) (after index).history =
    [⟨thread, (after index).calls thread, event⟩]
  legal : event.Legal (bindings past)

/-- Between two states the thread has made this call of every shard. -/
structure EachShard (thread : Nat) (request : SyncCall) (answers : List SyncResult)
    (before after : Nat → SyncMap) : Prop where
  each : List.Forall₂ (fun index answer => ThreadRecord.Serves thread request answer
    ((before index).recordOf thread) ((after index).recordOf thread)) shards answers
  elsewhere : ∀ index, index ∉ shards → (after index).recordOf thread = (before index).recordOf thread
  resized : ∀ size, request = .resize size → ∀ index ∈ shards, ∃ past later,
    (before index).history <+: past ∧
      (after index).history = past ++ ⟨thread, (after index).calls thread, .resize⟩ :: later

section Calls

variable {config : SyncConfig} {thread index : Nat} {request : SyncCall} {answer : SyncResult}
  {event : SyncEvent} {before after : Nat → SyncMap}

theorem fresh_entry (early : (before index).Invariant config False)
    (serves : ThreadRecord.Serves thread request answer ((before index).recordOf thread)
      ((after index).recordOf thread)) :
    ⟨thread, (after index).calls thread, event⟩ ∉ (before index).history := by
  intro member
  have old : (after index).calls thread ≤ (before index).calls thread := early.recorded.numbered _ member
  have new : (after index).calls thread = (before index).calls thread + 1 := serves.calls
  omega

theorem one_call (grows : (before index).history <+: (after index).history)
    (early : (before index).Invariant config False) (late : (after index).Invariant config False)
    (serves : ThreadRecord.Serves thread request answer ((before index).recordOf thread)
      ((after index).recordOf thread))
    (elsewhere : ∀ other, other ≠ index →
      (after other).recordOf thread = (before other).recordOf thread)
    (member : ⟨thread, (after index).calls thread, event⟩ ∈ (after index).history)
    (keyed : event ≠ .resize) :
    ∃ past, OneCall thread index request event past before after := by
  obtain ⟨past, later, since, split⟩ := placed_since grows member (fresh_entry early serves)
  exact ⟨past, ⟨answer, serves⟩, elsewhere, since, ⟨later, split⟩,
    entries_of_one late.recorded.once member keyed, late.recorded.legal past _ later split⟩

theorem answer_stands (late : (after index).Invariant config False)
    (serves : ThreadRecord.Serves thread request answer ((before index).recordOf thread)
      ((after index).recordOf thread)) :
    (⟨thread, (after index).calls thread, request, answer⟩ : ReturnedCall).Answered
      (after index).history :=
  late.recorded.answered _ (List.mem_filter.mp serves.answered).1

end Calls

/-! ### One key, one history -/

/-- What a lookup finds is the value of the latest insert of its key. -/
def Reads (past : List HistoryEntry) {Key Value : Type} [PulseKey Key] [PulseValue Value] (key : Key)
    (bytes : Option Bytes) (found : Option Value) : Prop :=
  found = bytes.bind PulseValue.codec.fromBytes ∧ ∀ value, found = some value → Latest past key value

/-- What a call of the sharded map with this result has done to the shards. -/
inductive ShardedAnswers (config : SyncConfig) (thread : Nat) (before after : Nat → SyncMap) :
    ShardedCall Key Value → ShardedResult Value → Prop
  | insert {key : Key} {value : Value} {ttl : Word} {victim : Option Bytes} {past : List HistoryEntry}
      (here : OneCall thread (shardFor config.wyhash (keyBytes key))
        (.insert (keyBytes key) (valueBytes value) ttl)
        (.insert (keyBytes key) (valueBytes value) victim) past before after) :
      ShardedAnswers config thread before after (.insert key value ttl) .done
  | get {key : Key} {bytes : Option Bytes} {found : Option Value} {past : List HistoryEntry}
      (here : OneCall thread (shardFor config.wyhash (keyBytes key)) (.get (keyBytes key))
        (.read (keyBytes key) bytes) past before after) (reads : Reads past key bytes found) :
      ShardedAnswers config thread before after (.get key) (.value found)
  | peek {key : Key} {bytes : Option Bytes} {found : Option Value} {past : List HistoryEntry}
      (here : OneCall thread (shardFor config.wyhash (keyBytes key)) (.peek (keyBytes key))
        (.read (keyBytes key) bytes) past before after) (reads : Reads past key bytes found) :
      ShardedAnswers config thread before after (.peek key) (.value found)
  | containsKey {key : Key} {bytes : Option Bytes} {found : Option Value} {past : List HistoryEntry}
      (here : OneCall thread (shardFor config.wyhash (keyBytes key)) (.peek (keyBytes key))
        (.read (keyBytes key) bytes) past before after) (reads : Reads past key bytes found) :
      ShardedAnswers config thread before after (.containsKey key) (.contains found.isSome)
  | remove {key : Key} {found : Bool} {past : List HistoryEntry}
      (here : OneCall thread (shardFor config.wyhash (keyBytes key)) (.remove (keyBytes key))
        (.remove (keyBytes key) found) past before after) :
      ShardedAnswers config thread before after (.remove key) (.removed found)
  | broadcast {request : SyncCall} {answers : List SyncResult} {call : ShardedCall Key Value}
      {result : ShardedResult Value} (broadcast : ShardedScript.Broadcast answers request call result)
      (each : EachShard thread request answers before after) :
      ShardedAnswers config thread before after call result
  | looks {call : ShardedCall Key Value} {result : ShardedResult Value}
      (looks : ShardedScript.Looks call result)
      (none : ∀ index, (after index).recordOf thread = (before index).recordOf thread) :
      ShardedAnswers config thread before after call result

section Answers

variable {config : SyncConfig} {bucketsPerShard thread : Nat} {moves : ShardedMoves Key Value}
  {schedule : Nat → SyncMoves} {before after : Nat → SyncMap}

theorem reads_of_call {index : Nat} {key : Key} {bytes : Option Bytes} {request : SyncCall}
    {past : List HistoryEntry}
    (runs : ShardRuns config bucketsPerShard moves index (schedule index) (after index))
    (here : OneCall thread index request (.read (keyBytes key) bytes) past before after) :
    Reads past key bytes ((SyncResult.value bytes).found : Option Value) := by
  refine ⟨rfl, ?_⟩
  intro value decoded
  obtain ⟨later, place⟩ := here.placed
  obtain ⟨text, rfl, decodes⟩ := Option.bind_eq_some_iff.mp decoded
  obtain ⟨_, stored, encoded, front, entry, since, victim, split, inserted, untouched⟩ :=
    runs.bound place here.legal
  have known : PulseValue.codec.fromBytes (valueBytes stored) = some stored :=
    PulseValue.codec.decodes stored
  rw [encoded, decodes] at known
  obtain rfl := Option.some.inj known
  exact ⟨front, entry, since, victim, split, encoded ▸ inserted, untouched⟩

theorem answers_of_trace (small : bucketsPerShard ≤ SyncMap.maxBuckets)
    (early : ∀ index, (before index).Invariant config False)
    (runs : ∀ index, ShardRuns config bucketsPerShard moves index (schedule index) (after index))
    (grows : ∀ index, (before index).history <+: (after index).history) {trace : ShardTrace}
    {call : ShardedCall Key Value} {result : ShardedResult Value}
    (traces : ShardedScript.Traces config trace call result)
    (passes : (shardService config).Passes thread trace (fun index => (before index).recordOf thread)
      fun index => (after index).recordOf thread) :
    ShardedAnswers config thread before after call result := by
  have late : ∀ index, (after index).Invariant config False := fun index => (runs index).invariant small
  have read : ∀ {key : Key} {request : SyncCall} {answer : SyncResult},
      request = .get (keyBytes key) ∨ request = .peek (keyBytes key) →
      (shardService config).Passes thread [(shardFor config.wyhash (keyBytes key), request, answer)]
        (fun index => (before index).recordOf thread) (fun index => (after index).recordOf thread) →
      ∃ bytes past, OneCall thread (shardFor config.wyhash (keyBytes key)) request
          (.read (keyBytes key) bytes) past before after ∧
        Reads past key bytes (answer.found : Option Value) := by
    intro key request answer reads passes
    obtain ⟨serves, elsewhere⟩ := Service.passes_one passes
    obtain ⟨bytes, rfl, stands⟩ := ReturnedCall.answered_read reads (answer_stands (late _) serves)
    obtain ⟨past, here⟩ := one_call (grows _) (early _) (late _) serves elsewhere stands (by simp)
    exact ⟨bytes, past, here, reads_of_call (runs _) here⟩
  cases traces with
  | insert key value ttl answer =>
      obtain ⟨serves, elsewhere⟩ := Service.passes_one passes
      obtain ⟨victim, stands⟩ := ReturnedCall.answered_insert (answer_stands (late _) serves)
      obtain ⟨past, here⟩ := one_call (grows _) (early _) (late _) serves elsewhere stands (by simp)
      exact .insert here
  | get key answer =>
      obtain ⟨bytes, past, here, reads⟩ := read (Or.inl rfl) passes
      exact .get here reads
  | peek key answer =>
      obtain ⟨bytes, past, here, reads⟩ := read (Or.inr rfl) passes
      exact .peek here reads
  | containsKey key answer =>
      obtain ⟨bytes, past, here, reads⟩ := read (Or.inr rfl) passes
      exact .containsKey here reads
  | remove key answer =>
      obtain ⟨serves, elsewhere⟩ := Service.passes_one passes
      obtain ⟨found, rfl, stands⟩ := ReturnedCall.answered_remove (answer_stands (late _) serves)
      obtain ⟨past, here⟩ := one_call (grows _) (early _) (late _) serves elsewhere stands (by simp)
      exact .remove here
  | @broadcast request _ answers _ same broadcast =>
      obtain ⟨each, elsewhere⟩ := Service.passes_all same List.nodup_range (fun _ _ => rfl) passes
      refine .broadcast broadcast ⟨each, elsewhere, ?_⟩
      rintro size rfl index listed
      obtain ⟨place, bound, rfl⟩ := List.getElem_of_mem listed
      have serves := each.get bound (by rw [same]; exact bound)
      exact placed_since (grows _) (ReturnedCall.answered_resize (answer_stands (late _) serves))
        (fresh_entry (early _) serves)
  | looks looks => exact .looks looks fun index => congrFun passes index

end Answers

def shardsAfter (autoResize : Bool) (wyhash : Bytes → Word) (bucketsPerShard : Nat)
    (moves : ShardedMoves Key Value) : Nat → SyncMap :=
  Copies.parts (shardedRun autoResize wyhash bucketsPerShard moves).shared

/-- Every schedule of the sharded map, seen key by key. -/
structure ShardedLinearizable (autoResize : Bool) (wyhash : Bytes → Word) (bucketsPerShard : Nat)
    (moves : ShardedMoves Key Value) : Prop where
  /-- Every shard is a concurrent map after the calls that were sent to it. -/
  runs : ∀ index, ∃ schedule, ShardRuns (shardConfig autoResize wyhash) bucketsPerShard moves index
    schedule (shardsAfter autoResize wyhash bucketsPerShard moves index)
  /-- No shard but the one of the key ever does anything with the key, or stores it. -/
  apart : ∀ index key, shardFor wyhash key ≠ index →
    (∀ entry ∈ (shardsAfter autoResize wyhash bucketsPerShard moves index).history,
      entry.event.key ≠ some key) ∧
    ∀ (position : Position) value,
      (shardsAfter autoResize wyhash bucketsPerShard moves index).layout.content
        position.1 position.2 ≠ some (key, value)
  /-- Every result that was noted is the return of one call, which has taken effect since it
  was called. -/
  returns : ∀ before thread call result after,
    Copies.notes (shardedRun autoResize wyhash bucketsPerShard moves).shared =
      before ++ (thread, (call, result)) :: after →
    ∃ past during later, moves = past ++ .call thread call :: during ++ .step thread :: later ∧
      Occupies (shardService (shardConfig autoResize wyhash)) (SyncMap.new bucketsPerShard)
        (ShardedCall.script (shardConfig autoResize wyhash)) thread call past during ∧
      Copies.notes (shardedRun autoResize wyhash bucketsPerShard
        (past ++ .call thread call :: during)).shared = before ∧
      ((shardedRun autoResize wyhash bucketsPerShard
        (past ++ .call thread call :: during ++ [.step thread])).programs thread).finished = true ∧
      ShardedAnswers (shardConfig autoResize wyhash) thread
        (shardsAfter autoResize wyhash bucketsPerShard past)
        (shardsAfter autoResize wyhash bucketsPerShard (past ++ .call thread call :: during)) call result

theorem sharded_linearizable (autoResize : Bool) (wyhash : Bytes → Word) (bucketsPerShard : Nat)
    (small : bucketsPerShard ≤ SyncMap.maxBuckets) (moves : ShardedMoves Key Value)
    (sized : moves.Sized) : ShardedLinearizable autoResize wyhash bucketsPerShard moves := by
  obtain ⟨split, stage, splits, runs⟩ := shards_run autoResize wyhash bucketsPerShard sized
  refine ⟨fun index => ⟨split index, runs index⟩, ?_, ?_⟩
  · intro index key away
    refine ⟨fun entry member about => away ((runs index).home member about), ?_⟩
    intro position value stored
    have bound := (((runs index).invariant small).reflects key value).mp ⟨position, stored⟩
    exact away ((runs index).bound (List.append_nil _).symm bound).1
  · intro before thread call result after noted
    obtain ⟨earlier, later, whole, notes, finished, client, trace, began, takes⟩ := clients_return noted
    obtain ⟨past, during, rfl, occupies, passes⟩ := began
    obtain ⟨rfl, traces⟩ := ShardedScript.takes_traces takes
    have sizedLate : ShardedMoves.Sized (past ++ .call thread call :: during) :=
      fun other request member => sized other request (by rw [whole]; exact List.mem_append_left _ member)
    have sizedEarly : ShardedMoves.Sized past :=
      fun other request member => sizedLate other request (List.mem_append_left _ member)
    obtain ⟨_, _, _, early⟩ := shards_run autoResize wyhash bucketsPerShard sizedEarly
    obtain ⟨_, _, _, late⟩ := shards_run autoResize wyhash bucketsPerShard sizedLate
    exact ⟨past, during, later, whole, occupies, notes, finished, answers_of_trace small
      (fun index => (early index).invariant small) late (shards_history small sizedLate) traces passes⟩

/-- Two threads on one key: the lookup begins first and finds what is inserted meanwhile. -/
theorem sharded_linearizable_two_threads :
    let moves : ShardedMoves UInt32 UInt32 := [.call 1 (.get 7), .step 1, .call 0 (.insert 7 70 0)] ++
      List.replicate 10 (.step 0) ++ List.replicate 4 (.step 1) ++ List.replicate 20 (.step 0) ++
      List.replicate 20 (.step 1) ++ .call 1 (.remove 7) :: List.replicate 20 (.step 1)
    moves.Sized ∧ ShardedLinearizable false (fun _ => 0) 1 moves ∧
      Copies.notes (shardedRun false (fun _ => 0) 1 moves).shared =
        [(0, (.insert 7 70 0, .done)), (1, (.get 7, .value (some 70))), (1, (.remove 7, .removed true))] := by
  intro moves
  have sized : moves.Sized := by
    intro thread call member
    simp only [moves, List.append_assoc, List.cons_append, List.nil_append, List.mem_cons,
      Move.call.injEq, List.mem_append, List.mem_replicate, reduceCtorEq, and_false, or_false,
      false_or] at member
    rcases member with ⟨_, rfl⟩ | ⟨_, rfl⟩ | ⟨_, rfl⟩
    · trivial
    · change (keyBytes (7 : UInt32)).length + (valueBytes (70 : UInt32)).length < 2 ^ 32
      decide
    · trivial
  exact ⟨sized, sharded_linearizable false _ 1 (by decide) moves sized, by decide +kernel⟩

end PulseMap
