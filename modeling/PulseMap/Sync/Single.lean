import PulseMap.Raw.Typed
import PulseMap.Sync.Linearizable
import PulseMap.Sync.Resize
import PulseMap.Sync.Sequential

/-!
The concurrent map under a single thread against the single-threaded map. The table with late
accesses stands between the two: the one is this table with its queue, the other the table
with every access applied at once.
-/

namespace PulseMap

/-! ### The calls of one thread -/

def RawOp.toSync : RawOp → SyncCall
  | insert key value => .insert key value 0
  | insertTtl key value ttl => .insert key value ttl
  | get key => .get key
  | peek key => .peek key
  | remove key => .remove key
  | setTtl ttl => .setTtl ttl

def RawResult.toSync : RawResult → SyncResult
  | done => .done
  | value found => .value found
  | removed found => .removed found

namespace SyncMap

open SyncProgram

variable {config : SyncConfig} {map : SyncMap} {thread numBuckets : Nat}

def homeAt (config : SyncConfig) (numBuckets : Nat) (key : Bytes) : Nat :=
  config.bucketIndex (config.hash key).h1 (numBuckets - 1)

/-- The unlocked map is the table, and the access buffer its queue until it grows too long for
one drain. -/
structure Mirrors (numBuckets : Nat) (late : LateTable) (map : SyncMap) : Prop where
  readers : map.readers = ∅
  writer : map.writer = none
  clean : map.poisoned = false
  timeless : map.Timeless
  size : map.layout.numBuckets = numBuckets
  mask : map.layout.bucketMask = numBuckets - 1
  table : map.table = late.table
  queued : late.events.length ≤ 64 → map.Queued late.events
  inRange : ∀ position ∈ late.events, position.1 < numBuckets

variable {late : LateTable}

theorem Mirrors.same_home (mirrors : Mirrors numBuckets late map) (config : SyncConfig) :
    map.home config = homeAt config numBuckets := by
  funext key
  rw [home, homeAt, mirrors.mask]

theorem Mirrors.home_lt (mirrors : Mirrors numBuckets late map) (vacant : map.Vacant config)
    (key : Bytes) : homeAt config numBuckets key < numBuckets := by
  rw [← mirrors.same_home config, ← mirrors.size]
  exact Layout.index_lt vacant.layout _

theorem insert_exec (thread : Nat) (fixed : config.autoResize = false) (vacant : map.Vacant config)
    (mirrors : Mirrors numBuckets late map) {key value : Bytes} {ttl : Word}
    (small : key.length + value.length < 2 ^ 32) (unlimited : Unlimited ttl)
    (short : late.events.length ≤ 64) :
    ∃ after, (insertInternal key value ttl : SyncProgram config SyncResult).exec thread map =
        some (.done, after) ∧
      Mirrors numBuckets ⟨late.settled.put (homeAt config numBuckets) (fingerprint config) key value, []⟩
        after := by
  let ticked : SyncMap := { map with currentEpoch := map.currentEpoch + 1 }
  have still : ticked.Vacant config :=
    ⟨vacant.layout, vacant.readers, vacant.writer, vacant.locks, vacant.slab, vacant.clean⟩
  have waiting : ticked.Queued late.events := mirrors.queued short
  obtain ⟨drained, emptied, same, empty⟩ := drain_alone_exec thread still
    (fun position member => mirrors.size.symm ▸ mirrors.inRange position member) waiting short
  have here : drained.Vacant config := same.vacant (accessed_vacant still late.events)
  have whole := same
  rw [Buffers, accessed_else] at whole
  have mask : drained.layout.bucketMask = numBuckets - 1 := by
    rw [whole]
    exact mirrors.mask
  have size : drained.layout.numBuckets = numBuckets := by
    rw [whole]
    exact mirrors.size
  have sameHome : drained.home config = homeAt config numBuckets := by
    funext name
    rw [home, homeAt, mask]
  have fresh : ticked.Timeless := ⟨mirrors.timeless.default, mirrors.timeless.stamps⟩
  have timeless : drained.Timeless := same.matches.timeless (accessed_timeless fresh late.events)
  have table : drained.table = { late.settled with epoch := late.table.epoch + 1 } := by
    rw [same.matches.same_table, accessed_table, LateTable.settled, ← mirrors.table]
    exact Table.replay_epoch map.table (map.currentEpoch + 1) late.events
  obtain ⟨target, left, ran, booked, inserts⟩ := insert_body_exec thread here small ttl
  obtain ⟨layout, count, evictionCount, frame, sizes, masks⟩ := inserts.frame
  have index : config.bucketIndex (config.hash key).h1 ticked.layout.bucketMask =
      drained.home config key := by
    rw [sameHome, homeAt, ← mirrors.mask]
  obtain ⟨after, done, matched, buffer⟩ := with_bucket_exec still index emptied (here.locks _)
    (size.trans mirrors.size.symm) ran booked.matches (by rw [frame]; exact here.readers)
    (by rw [frame]; exact here.locks _)
  refine ⟨after, ?_, ?_⟩
  · have added : map.perform config thread .addEpoch = some ((), ticked) := rfl
    have noResize : (autoResize : SyncProgram config Unit) = pure () := by
      unfold autoResize
      rw [if_neg (by rw [fixed]; exact Bool.false_ne_true)]
    unfold insertInternal
    rw [noResize]
    change (atomic .addEpoch >>= fun _ => withBucket (config.hash key).h1 (drain drainBatch)
      (insertBody key value ttl) >>= fun _ => pure SyncResult.done).exec thread map = _
    rw [exec_atomic _ added, exec_part _ done]
    rfl
  · have epoch : drained.currentEpoch = late.settled.epoch + 1 := by
      have counted := congrArg Table.epoch table
      rw [LateTable.settled, (Table.replay_counts late.table late.events).2]
      exact counted
    have ticks := Table.put_ticked (homeAt config numBuckets) (fingerprint config) late.settled
      (late.table.epoch + 1) key value
    refine ⟨?_, ?_, ?_, ?_, ?_, ?_, ?_, ?_, by simp⟩
    · rw [matched, frame]
      exact here.readers
    · rw [matched, frame]
      exact here.writer
    · rw [matched, frame]
      exact here.clean
    · exact matched.timeless (inserts.timeless timeless unlimited)
    · rw [matched, frame]
      exact sizes.trans size
    · rw [matched, frame]
      exact masks.trans mask
    · rw [matched.same_table, inserts.table, sameHome, table, epoch]
      exact ticks
    · intro _
      have kept : after.accessBuffer = drained.accessBuffer := by
        obtain ⟨_, _, _, _, rfl⟩ := booked
        rw [buffer, frame]
        rfl
      exact queued_same kept empty

theorem mirrors_matched {after : SyncMap} {events : List Position}
    (mirrors : Mirrors numBuckets late map) (matched : Matches map after)
    (queued : events.length ≤ 64 → after.Queued events)
    (inRange : ∀ position ∈ events, position.1 < numBuckets) :
    Mirrors numBuckets { late with events := events } after where
  readers := by
    rw [matched]
    exact mirrors.readers
  writer := by
    rw [matched]
    exact mirrors.writer
  clean := by
    rw [matched]
    exact mirrors.clean
  timeless := matched.timeless mirrors.timeless
  size := by
    rw [matched]
    exact mirrors.size
  mask := by
    rw [matched]
    exact mirrors.mask
  table := matched.same_table.trans mirrors.table
  queued := queued
  inRange := inRange

theorem mirrors_same {after : SyncMap} (mirrors : Mirrors numBuckets late map)
    (matched : Matches map after) (kept : after.accessBuffer = map.accessBuffer) :
    Mirrors numBuckets late after :=
  mirrors_matched mirrors matched (fun short => queued_same kept (mirrors.queued short))
    mirrors.inRange

theorem get_exec (thread : Nat) (vacant : map.Vacant config) (mirrors : Mirrors numBuckets late map)
    (key : Bytes) :
    ∃ after, (SyncProgram.get key : SyncProgram config SyncResult).exec thread map =
        some (.value ((late.table.views (homeAt config numBuckets key)).find key), after) ∧
      Mirrors numBuckets
        (late.apply (homeAt config numBuckets) (fingerprint config) (.get key)).2 after := by
  obtain ⟨left, ran, matched, buffer⟩ := get_body_exec thread vacant mirrors.timeless key
  obtain ⟨after, done, same, kept⟩ := in_bucket_exec vacant rfl ran matched vacant.readers
    (vacant.locks _)
  rw [buffer, mirrors.table, mirrors.same_home config] at kept
  rw [mirrors.table, mirrors.same_home config] at done
  refine ⟨after, ?_, ?_⟩
  · unfold SyncProgram.get
    rw [exec_part _ done]
    rfl
  · rw [LateTable.apply]
    cases hit : late.table.seek (homeAt config numBuckets) key with
    | none =>
        rw [hit] at kept
        exact mirrors_same mirrors same kept
    | some slot =>
        rw [hit] at kept
        have inside := mirrors.home_lt vacant key
        have small := Layout.bucket_bound vacant.layout
        rw [mirrors.size] at small
        apply mirrors_matched mirrors same
        · intro short
          rw [List.length_append, List.length_singleton] at short
          exact queued_push (mirrors.queued (by omega)) (by omega) (by omega) thread kept
        · intro position member
          rcases List.mem_append.mp member with old | new
          · exact mirrors.inRange position old
          · rw [List.mem_singleton.mp new]
            exact inside

theorem peek_value_exec (thread : Nat) (vacant : map.Vacant config)
    (mirrors : Mirrors numBuckets late map) (key : Bytes) :
    ∃ after, (SyncProgram.peek key : SyncProgram config SyncResult).exec thread map =
        some (.value ((late.table.views (homeAt config numBuckets key)).find key), after) ∧
      Mirrors numBuckets late after := by
  obtain ⟨after, ran, same, kept⟩ := peek_exec vacant thread key
  have live : map.peeked (map.home config key) (map.layout.content (map.home config key))
      (slotOf (map.layout.content (map.home config key)) key) =
        (map.table.views (map.home config key)).find key := by
    change _ = (slotOf (map.layout.content (map.home config key)) key).bind fun slot =>
      (map.layout.content (map.home config key) slot).map Prod.snd
    cases found : slotOf (map.layout.content (map.home config key)) key with
    | none => rfl
    | some slot =>
        obtain ⟨value, held⟩ := slot_of_some found
        have fresh := Raw.unlimited_live (map.layout.epochs (map.home config key * 4 + slot.val))
          (mirrors.timeless.stamps _ slot (by rw [held]; rfl)) mirrors.timeless.default map.currentEpoch
        simp [peeked, fresh]
  rw [mirrors.table, mirrors.same_home config] at live
  refine ⟨after, ?_, mirrors_same mirrors same kept⟩
  rw [← live, ← mirrors.same_home config]
  exact ran

theorem remove_exec (thread : Nat) (vacant : map.Vacant config)
    (mirrors : Mirrors numBuckets late map) (key : Bytes) :
    ∃ after, (SyncProgram.remove key : SyncProgram config SyncResult).exec thread map =
        some (.removed (late.table.seek (homeAt config numBuckets) key).isSome, after) ∧
      Mirrors numBuckets
        (late.apply (homeAt config numBuckets) (fingerprint config) (.remove key)).2 after := by
  obtain ⟨target, left, ran, booked, removes⟩ := remove_body_exec thread vacant key
  obtain ⟨layout, count, frame, sizes, masks⟩ := removes.frame
  obtain ⟨after, done, same, buffer⟩ := in_bucket_exec vacant rfl ran booked.matches
    (by rw [frame]; exact vacant.readers) (by rw [frame]; exact vacant.locks _)
  rw [mirrors.table, mirrors.same_home config] at done
  have kept : after.accessBuffer = map.accessBuffer := by
    obtain ⟨_, _, _, _, rfl⟩ := booked
    rw [buffer, frame]
    rfl
  refine ⟨after, ?_, ?_⟩
  · unfold SyncProgram.remove
    rw [exec_part _ done]
    rfl
  · have emptied : Mirrors numBuckets { late with table := target.table } target := by
      rw [frame]
      exact ⟨mirrors.readers, mirrors.writer, mirrors.clean,
        frame ▸ removes.timeless mirrors.timeless, sizes.trans mirrors.size, masks.trans mirrors.mask, rfl,
        fun short => queued_same rfl (mirrors.queued short), mirrors.inRange⟩
    have moved := mirrors_same emptied same (by rw [kept, frame])
    rw [removes.table, mirrors.table, mirrors.same_home config] at moved
    rw [LateTable.apply]
    cases hit : late.table.seek (homeAt config numBuckets) key with
    | none =>
        rw [hit] at moved
        exact moved
    | some slot =>
        rw [hit] at moved
        exact moved

/-- Every call alone is the call of the table with late accesses. -/
theorem body_exec (thread : Nat) (fixed : config.autoResize = false) (vacant : map.Vacant config)
    (mirrors : Mirrors numBuckets late map) (op : RawOp) (sized : op.Sized)
    (unlimited : op.Unlimited) (batch : op.insertion.isSome → late.events.length ≤ 64) :
    let answer := late.apply (homeAt config numBuckets) (fingerprint config) op
    ∃ after, (op.toSync.body config).exec thread map = some (answer.1.toSync, after) ∧
      Mirrors numBuckets answer.2 after := by
  cases op with
  | insert key value =>
      exact insert_exec thread fixed vacant mirrors (sized _ _ _ rfl) (Or.inl rfl) (batch rfl)
  | insertTtl key value ttl =>
      exact insert_exec thread fixed vacant mirrors (sized _ _ _ rfl) unlimited (batch rfl)
  | get key => exact get_exec thread vacant mirrors key
  | peek key => exact peek_value_exec thread vacant mirrors key
  | remove key => exact remove_exec thread vacant mirrors key
  | setTtl ttl =>
      exact ⟨_, rfl, mirrors.readers, mirrors.writer, mirrors.clean,
        ⟨unlimited, mirrors.timeless.stamps⟩, mirrors.size, mirrors.mask, mirrors.table, fun short => queued_same rfl (mirrors.queued short),
        mirrors.inRange⟩

end SyncMap

/-! ### Whole calls -/

/-- A call that runs alone: the result that it notes last, and the map that it leaves. -/
def SyncCall.alone (config : SyncConfig) (thread : Nat) (map : SyncMap) (call : SyncCall) :
    Option (SyncResult × SyncMap) := do
  let (_, after) ← (call.program config).exec thread map
  let noted ← SyncMap.returned after |>.getLast?
  some (noted.result, after)

namespace SyncMap

open SyncProgram

variable {config : SyncConfig} {map : SyncMap} {thread numBuckets start : Nat} {late : LateTable}

def Reached (config : SyncConfig) (start : Nat) (map : SyncMap) : Prop :=
  ∃ moves : SyncMoves, moves.Sized ∧ syncRun config start moves = ⟨map, fun _ => .done ()⟩

theorem reached_vacant (small : start ≤ maxBuckets) (reached : Reached config start map)
    (mirrors : Mirrors numBuckets late map) : map.Vacant config := by
  obtain ⟨moves, sized, ran⟩ := reached
  have invariant := (sync_run_holds config False small moves sized False.elim).invariant
  rw [ran] at invariant
  exact vacant_of_unlocked invariant mirrors.readers mirrors.writer mirrors.clean

theorem sync_sized {op : RawOp} (sized : op.Sized) : op.toSync.Sized := by
  cases op with
  | insert key value => exact sized key value 0 rfl
  | insertTtl key value ttl => exact sized key value ttl rfl
  | _ => trivial

theorem alone_exec (thread : Nat) (fixed : config.autoResize = false) (small : start ≤ maxBuckets)
    (reached : Reached config start map) (mirrors : Mirrors numBuckets late map) {op : RawOp}
    (sized : op.Sized) (unlimited : op.Unlimited)
    (batch : op.insertion.isSome → late.events.length ≤ 64) :
    let answer := late.apply (homeAt config numBuckets) (fingerprint config) op
    ∃ after, op.toSync.alone config thread map = some (answer.1.toSync, after) ∧
      Reached config start after ∧ Mirrors numBuckets answer.2 after := by
  intro answer
  have vacant := reached_vacant small reached mirrors
  let begun : SyncMap := { map with
    calls := Function.update map.calls thread (map.calls thread + 1)
    outcome := Function.update map.outcome thread none
    started := map.started ++ [⟨thread, map.calls thread + 1, op.toSync⟩] }
  have matched : Matches map begun := rfl
  have still : begun.Vacant config :=
    ⟨vacant.layout, vacant.readers, vacant.writer, vacant.locks, vacant.slab, vacant.clean⟩
  obtain ⟨left, ran, mirrored⟩ := body_exec thread fixed still (mirrors_same mirrors matched rfl) op
    sized unlimited batch
  let after : SyncMap := { left with
    returned := left.returned ++ [⟨thread, left.calls thread, op.toSync, answer.1.toSync⟩] }
  have done : (op.toSync.program config).exec thread map = some ((), after) := by
    have began : map.perform config thread (.begin op.toSync) = some ((), begun) := rfl
    unfold SyncCall.program
    rw [exec_atomic _ began, exec_part _ ran]
    rfl
  refine ⟨after, ?_, ?_, mirrors_same mirrored rfl rfl⟩
  · unfold SyncCall.alone
    rw [done]
    have noted : after.returned.getLast? =
        some ⟨thread, left.calls thread, op.toSync, answer.1.toSync⟩ := List.getLast?_concat
    change (after.returned.getLast?.bind fun noted => some (noted.result, after)) = _
    rw [noted]
    rfl
  · obtain ⟨moves, sizes, here⟩ := reached
    obtain ⟨count, steps⟩ : ∃ count, (syncRun config start moves).run (SyncCall.program config)
        (.call thread op.toSync :: List.replicate count (.step thread)) =
          { syncRun config start moves with shared := after } :=
      System.exec_call (SyncCall.program config) (by rw [here]) (by rw [here]; exact done)
    refine ⟨moves ++ (.call thread op.toSync :: List.replicate count (.step thread)), ?_, ?_⟩
    · intro other call member
      rcases List.mem_append.mp member with old | new
      · exact sizes other call old
      · simp only [List.mem_cons, Move.call.injEq, List.mem_replicate, reduceCtorEq, and_false,
          or_false] at new
        rw [new.2]
        exact sync_sized sized
    · rw [sync_run_append, steps, here]

end SyncMap

end PulseMap
