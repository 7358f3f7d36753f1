import PulseMap.Library.Discipline
import PulseMap.Sync.Reachable

/-!
Every entry of the history belongs to a call of the schedule: a call records only events
of its own key and value, so nothing in the history is attributed to another call.
-/

namespace PulseMap

/-- The event is one that this call may leave in the history. -/
def SyncEvent.Of (call : SyncCall) (event : SyncEvent) : Prop :=
  match call, event with
  | .insert key value _, .insert name text _ => name = key ∧ text = value
  | .insert _ _ _, .resize => True
  | .get key, .read name _ => name = key
  | .peek key, .read name _ => name = key
  | .remove key, .remove name _ => name = key
  | .resize _, .resize => True
  | _, _ => False

/-- The calls that write to buckets and to the slab pool. -/
def SyncCall.Writes : SyncCall → Prop
  | .insert _ _ _ => True
  | .remove _ => True
  | _ => False

/-- What the call may do once it has begun. -/
def SyncCall.Permits (call : SyncCall) : SyncAction → Prop
  | .begin _ => False
  | .onAccess _ _ => call.Writes
  | .slabFree _ _ _ => call.Writes
  | .slabAlloc _ _ _ _ => call.Writes
  | .rehash _ => SyncEvent.Of call .resize
  | .updateSlot _ _ _ key value => SyncEvent.Of call (.insert key value none)
  | .placeSlot _ _ _ _ key value => ∀ victim, SyncEvent.Of call (.insert key value victim)
  | .clearSlot _ _ key => SyncEvent.Of call (.remove key true)
  | .commit event => event.Of call
  | _ => True

inductive CallPhase where
  | idle
  | waiting (call : SyncCall)
  | running (call : SyncCall)

namespace CallPhase

def Allows : CallPhase → SyncAction → Prop
  | idle, _ => False
  | waiting call, action => action = .begin call
  | running call, action => call.Permits action

def next : CallPhase → CallPhase
  | waiting call => running call
  | phase => phase

end CallPhase

def callDiscipline (config : SyncConfig) : Discipline (syncMachine config) where
  Local := CallPhase
  Allows := CallPhase.Allows
  next := fun phase _ _ => phase.next

namespace SyncCall

open SyncProgram

variable {config : SyncConfig} {Result Next : Type} {call : SyncCall}

def Runs (call : SyncCall) (program : SyncProgram config Result) : Prop :=
  (callDiscipline config).Follows program (fun _ place => place = .running call) (.running call)

theorem runs_bind {program : SyncProgram config Result} {next : Result → SyncProgram config Next}
    (first : call.Runs program) (rest : ∀ result, call.Runs (next result)) :
    call.Runs (program >>= next) := by
  apply Discipline.follows_bind
  apply Discipline.follows_mono first
  rintro result _ rfl
  exact rest result

theorem runs_pure (result : Result) : call.Runs (pure result : SyncProgram config Result) := rfl

theorem runs_atomic {action : SyncAction} (permits : call.Permits action) :
    call.Runs (atomic action : SyncProgram config _) := ⟨permits, fun _ => rfl⟩

theorem runs_or_panic (answer : Option Result) :
    call.Runs (orPanic answer : SyncProgram config Result) := by
  cases answer <;> trivial

theorem runs_if {test : Prop} [Decidable test] {yes no : SyncProgram config Result}
    (onYes : call.Runs yes) (onNo : call.Runs no) : call.Runs (if test then yes else no) := by
  split_ifs <;> assumption

/-! ### The parts of the calls -/

theorem runs_complete_call (fuel : Nat) (point : BufferCall 64) :
    call.Runs (completeCall fuel point : SyncProgram config _) := by
  induction fuel generalizing point with
  | zero => exact runs_pure _
  | succ fuel induction =>
      exact runs_if (runs_pure _) (runs_bind (runs_atomic trivial) induction)

theorem runs_push (bucketIdx : Nat) (slot : Fin 4) :
    call.Runs (push bucketIdx slot : SyncProgram config _) :=
  runs_bind (runs_atomic trivial) fun _ =>
    runs_bind (runs_complete_call _ _) fun _ => runs_pure _

theorem runs_pop : call.Runs (pop : SyncProgram config _) := by
  refine runs_bind (runs_atomic trivial) fun _ => runs_bind (runs_complete_call _ _) fun result => ?_
  cases result <;> exact runs_pure _

theorem runs_clear (budget : Nat) : call.Runs (clear budget : SyncProgram config _) := by
  induction budget with
  | zero => exact runs_pure _
  | succ budget induction =>
      refine runs_bind runs_pop fun event => ?_
      cases event with
      | none => exact runs_pure _
      | some event => exact induction

theorem runs_read_inner : call.Runs (readInner : SyncProgram config _) :=
  runs_bind (runs_atomic trivial) fun _ => runs_bind (runs_atomic trivial) fun _ =>
    runs_if (runs_bind (runs_atomic trivial) fun _ => trivial) (runs_pure _)

theorem runs_unwind_write : call.Runs (unwindWrite : SyncProgram config Result) :=
  runs_bind (runs_atomic trivial) fun _ => trivial

theorem runs_write_inner : call.Runs (writeInner : SyncProgram config _) :=
  runs_bind (runs_atomic trivial) fun _ => runs_bind (runs_atomic trivial) fun _ =>
    runs_if runs_unwind_write (runs_pure _)

theorem runs_lock_bucket (bucketIdx : Nat) :
    call.Runs (lockBucket bucketIdx : SyncProgram config _) :=
  runs_bind (runs_atomic trivial) fun _ => runs_if (runs_pure _) trivial

theorem runs_drain (writes : call.Writes) (budget : Nat) :
    call.Runs (drain budget : SyncProgram config _) := by
  induction budget with
  | zero => exact runs_pure _
  | succ budget induction =>
      refine runs_bind runs_pop fun event => ?_
      cases event with
      | none => exact runs_pure _
      | some event =>
          exact runs_bind (runs_lock_bucket _) fun _ => runs_bind (runs_atomic writes) fun _ =>
            runs_bind (runs_atomic trivial) fun _ => induction

theorem runs_with_bucket {h1 : Word} {before : SyncProgram config Unit}
    {body : Nat → Bucket → SyncProgram config Result} (first : call.Runs before)
    (inner : ∀ bucketIdx bucket, call.Runs (body bucketIdx bucket)) :
    call.Runs (withBucket h1 before body) :=
  runs_bind runs_read_inner fun _ => runs_bind (runs_atomic trivial) fun _ =>
    runs_bind first fun _ => runs_bind (runs_lock_bucket _) fun _ =>
      runs_bind (runs_atomic trivial) fun _ => runs_bind (inner _ _) fun _ =>
        runs_bind (runs_atomic trivial) fun _ => runs_bind (runs_atomic trivial) fun _ =>
          runs_pure _

theorem runs_is_expired (bucketIdx : Nat) (slot : Fin 4) :
    call.Runs (isExpired bucketIdx slot : SyncProgram config _) :=
  runs_bind (runs_atomic trivial) fun _ =>
    runs_bind (runs_if (runs_atomic trivial) (runs_pure _)) fun _ =>
      runs_if (runs_pure _) (runs_bind (runs_atomic trivial) fun _ => runs_pure _)

theorem runs_stamp_epoch (bucketIdx : Nat) (slot : Fin 4) (ttl : Word) :
    call.Runs (stampEpoch bucketIdx slot ttl : SyncProgram config _) :=
  runs_bind (runs_atomic trivial) fun _ => runs_atomic trivial

theorem runs_find_slot (bucket : Bucket) (key : Bytes) (hr : HashResult) (slots : List (Fin 4)) :
    call.Runs (findSlot bucket key hr slots : SyncProgram config _) := by
  induction slots with
  | nil => exact runs_pure _
  | cons slot rest induction =>
      exact runs_bind (runs_atomic trivial) fun _ => runs_bind (runs_or_panic _) fun _ =>
        runs_if (runs_pure _) induction

theorem runs_get_slot (bucket : Bucket) (key : Bytes) (hr : HashResult) (slots : List (Fin 4)) :
    call.Runs (getSlot bucket key hr slots : SyncProgram config _) := by
  induction slots with
  | nil => exact runs_pure _
  | cons slot rest induction =>
      refine runs_bind ?_ fun _ => runs_if (runs_pure _) induction
      exact runs_if (runs_pure _) (runs_if (runs_pure _) (runs_if (runs_pure _)
        (runs_bind (runs_atomic trivial) fun _ => runs_or_panic _)))

theorem runs_release_slab (writes : call.Writes) (bucketIdx : Nat) (slot : Fin 4) (data : Slot) :
    call.Runs (releaseSlab bucketIdx slot data : SyncProgram config _) :=
  runs_if (runs_atomic writes) (runs_pure _)

theorem runs_store_pair (writes : call.Writes) (bucketIdx : Nat) (slot : Fin 4) (data : Slot)
    (key value : Bytes) (hr : HashResult) :
    call.Runs (storePair bucketIdx slot data key value hr : SyncProgram config _) :=
  runs_if (runs_pure _) (runs_bind (runs_atomic writes) fun _ =>
    runs_bind (runs_or_panic _) fun _ => runs_pure _)

/-! ### The calls -/

theorem runs_rehash_loop (permits : SyncEvent.Of call .resize) (fuel newActual : Nat) :
    call.Runs (rehashLoop fuel newActual : SyncProgram config _) := by
  induction fuel generalizing newActual with
  | zero => exact runs_unwind_write
  | succ fuel induction =>
      refine runs_bind (runs_atomic permits) fun answer => ?_
      rcases answer with _ | _ | count
      · exact runs_unwind_write
      · exact induction _
      · exact runs_atomic trivial

theorem runs_resize (newNumBuckets : Nat) (permits : SyncEvent.Of call .resize) :
    call.Runs (SyncProgram.resize newNumBuckets : SyncProgram config _) :=
  runs_bind runs_write_inner fun _ => runs_bind (runs_atomic trivial) fun _ =>
    runs_bind (runs_if (runs_pure _) (runs_bind (runs_clear _) fun _ => runs_rehash_loop permits _ _))
      fun _ => runs_bind (runs_atomic permits) fun _ => runs_atomic trivial

theorem runs_auto_resize (permits : SyncEvent.Of call .resize) :
    call.Runs (autoResize : SyncProgram config _) :=
  runs_if (runs_bind runs_read_inner fun _ => runs_bind (runs_atomic trivial) fun _ =>
    runs_bind (runs_atomic trivial) fun _ => runs_bind (runs_atomic trivial) fun _ =>
      runs_if (runs_resize _ permits) (runs_pure _)) (runs_pure _)

theorem runs_insert_body (key value : Bytes) (ttl : Word) (bucketIdx : Nat) (bucket : Bucket) :
    (SyncCall.insert key value ttl).Runs
      (insertBody key value ttl bucketIdx bucket : SyncProgram config _) := by
  have writes : (SyncCall.insert key value ttl).Writes := trivial
  have place : ∀ slot isEviction, (SyncCall.insert key value ttl).Runs
      (placeInto bucketIdx bucket slot isEviction key value ttl : SyncProgram config _) :=
    fun slot isEviction => runs_bind (runs_store_pair writes _ _ _ _ _ _) fun _ =>
      runs_bind (runs_atomic fun _ => ⟨rfl, rfl⟩) fun _ => runs_bind (runs_stamp_epoch _ _ _) fun _ =>
        runs_if (runs_pure _) (runs_atomic trivial)
  refine runs_bind (runs_find_slot _ _ _ _) fun found => ?_
  cases found with
  | some slot =>
      exact runs_bind (runs_release_slab writes _ _ _) fun _ =>
        runs_bind (runs_store_pair writes _ _ _ _ _ _) fun _ => runs_bind (runs_atomic ⟨rfl, rfl⟩)
          fun _ => runs_stamp_epoch _ _ _
  | none =>
      dsimp only
      split
      · exact place _ _
      · split
        · exact runs_bind (runs_release_slab writes _ _ _) fun _ => runs_bind (runs_atomic trivial)
            fun _ => place _ _
        · exact runs_pure _

theorem runs_get_found (key : Bytes) (bucketIdx : Nat) (bucket : Bucket) :
    call.Runs (getFound key bucketIdx bucket : SyncProgram config _) := by
  refine runs_bind (runs_get_slot _ _ _ _) fun found => ?_
  cases found with
  | none => exact runs_pure _
  | some slot =>
      exact runs_bind (runs_is_expired _ _) fun _ => runs_if (runs_pure _)
        (runs_bind (runs_push _ _) fun _ => runs_if (runs_pure _) (runs_bind (runs_atomic trivial)
          fun _ => runs_bind (runs_or_panic _) fun _ => runs_pure _))

theorem runs_peek_slots (key : Bytes) (hr : HashResult) (bucketIdx : Nat) (bucket : Bucket)
    (slots : List (Fin 4)) :
    call.Runs (peekSlots key hr bucketIdx bucket slots : SyncProgram config _) := by
  induction slots with
  | nil => exact runs_pure _
  | cons slot rest induction =>
      refine runs_bind (runs_atomic trivial) fun _ => runs_bind (runs_atomic trivial) fun _ =>
        runs_bind (runs_or_panic _) fun _ => runs_if ?_ ?_
      · refine runs_bind (runs_is_expired _ _) fun _ => runs_if ?_ ?_
        · exact runs_bind (runs_atomic trivial) fun _ => runs_pure _
        · exact runs_bind (runs_atomic trivial) fun _ => runs_bind (runs_or_panic _) fun _ =>
            runs_bind (runs_atomic trivial) fun _ => runs_pure _
      · exact runs_bind (runs_atomic trivial) fun _ => induction

theorem runs_remove_body (key : Bytes) (bucketIdx : Nat) (bucket : Bucket) :
    (SyncCall.remove key).Runs (removeBody key bucketIdx bucket : SyncProgram config _) := by
  have writes : (SyncCall.remove key).Writes := trivial
  refine runs_bind (runs_find_slot _ _ _ _) fun found => ?_
  cases found with
  | none => exact runs_bind (runs_atomic rfl) fun _ => runs_pure _
  | some slot =>
      exact runs_bind (runs_release_slab writes _ _ _) fun _ => runs_bind (runs_atomic rfl) fun _ =>
        runs_bind (runs_atomic trivial) fun _ => runs_pure _

theorem runs_body (call : SyncCall) : call.Runs (call.body config) := by
  cases call with
  | insert key value ttl =>
      have writes : (SyncCall.insert key value ttl).Writes := trivial
      exact runs_bind (runs_auto_resize trivial) fun _ => runs_bind (runs_atomic trivial) fun _ =>
        runs_bind (runs_with_bucket (runs_drain writes _) fun _ _ => runs_insert_body _ _ _ _ _)
          fun _ => runs_pure _
  | get key =>
      exact runs_bind (runs_with_bucket (runs_pure _) fun _ _ => runs_bind (runs_get_found _ _ _)
        fun _ => runs_bind (runs_atomic rfl) fun _ => runs_pure _) fun _ => runs_pure _
  | peek key =>
      exact runs_bind (runs_with_bucket (runs_pure _) fun _ _ =>
        runs_bind (runs_peek_slots _ _ _ _ _) fun _ => runs_bind (runs_atomic rfl) fun _ =>
          runs_pure _) fun _ => runs_pure _
  | remove key =>
      exact runs_bind (runs_with_bucket (runs_pure _) fun _ _ => runs_remove_body _ _ _)
        fun _ => runs_pure _
  | resize newNumBuckets => exact runs_bind (runs_resize _ trivial) fun _ => runs_pure _
  | setTtl ttl => exact runs_bind (runs_atomic trivial) fun _ => runs_pure _
  | capacity =>
      exact runs_bind runs_read_inner fun _ => runs_bind (runs_atomic trivial) fun _ =>
        runs_bind (runs_atomic trivial) fun _ => runs_pure _

theorem program_follows (call : SyncCall) :
    (callDiscipline config).Follows (call.program config) (fun _ _ => True) (.waiting call) := by
  refine ⟨rfl, fun _ => ?_⟩
  change (callDiscipline config).Follows
    (call.body config >>= fun result => atomic (.finish call result)) _ (.running call)
  apply Discipline.follows_bind
  apply Discipline.follows_mono (runs_body call)
  rintro result _ rfl
  exact ⟨trivial, fun _ => trivial⟩

end SyncCall

/-! ### The history of a schedule -/

namespace SyncMap

variable {config : SyncConfig} {map after : SyncMap} {thread : Nat} {call : SyncCall}

/-- An action of a call leaves the history alone or adds an event of the call to it. -/
theorem perform_history {action : SyncAction} {response : action.Response}
    (permits : call.Permits action)
    (performed : perform config thread action map = some (response, after)) :
    after.calls = map.calls ∧ after.started = map.started ∧
      (after.history = map.history ∨ ∃ event, SyncEvent.Of call event ∧
        after.history = map.history ++ [⟨thread, map.calls thread, event⟩]) := by
  cases action with
  | begin request => exact permits.elim
  | updateSlot bucketIdx slot data key value =>
      obtain rfl := (Prod.mk.inj (Option.some.inj performed)).2
      exact ⟨rfl, rfl, Or.inr ⟨_, permits, rfl⟩⟩
  | placeSlot bucketIdx slot h2 data key value =>
      obtain rfl := (Prod.mk.inj (Option.some.inj performed)).2
      exact ⟨rfl, rfl, Or.inr ⟨_, permits _, rfl⟩⟩
  | clearSlot bucketIdx slot key =>
      obtain rfl := (Prod.mk.inj (Option.some.inj performed)).2
      exact ⟨rfl, rfl, Or.inr ⟨_, permits, rfl⟩⟩
  | commit event =>
      obtain rfl := (Prod.mk.inj (Option.some.inj performed)).2
      exact ⟨rfl, rfl, Or.inr ⟨_, permits, rfl⟩⟩
  | _ =>
      simp only [perform] at performed
      repeat' split at performed
      all_goals first
        | (obtain rfl := (Prod.mk.inj (Option.some.inj performed)).2; exact ⟨rfl, rfl, Or.inl rfl⟩)
        | simp at performed

/-- Every entry of the history belongs to one started call of the schedule. -/
structure Attributed (moves : SyncMoves) (map : SyncMap) : Prop where
  entries : ∀ entry ∈ map.history, ∃ request,
    ⟨entry.thread, entry.call, request⟩ ∈ map.started ∧ entry.event.Of request
  scheduled : ∀ call ∈ map.started, .call call.thread call.request ∈ moves
  numbered : ∀ call ∈ map.started, call.call ≤ map.calls call.thread
  once : (map.started.map fun call => (call.thread, call.call)).Nodup

def Current (moves : SyncMoves) (thread : Nat) (map : SyncMap) : CallPhase → Prop
  | .idle => True
  | .waiting call => .call thread call ∈ moves
  | .running call => .call thread call ∈ moves ∧ ⟨thread, map.calls thread, call⟩ ∈ map.started

variable {moves : SyncMoves}

theorem attributed_begin (attributed : Attributed moves map)
    (scheduled : .call thread call ∈ moves) :
    Attributed moves { map with
      calls := Function.update map.calls thread (map.calls thread + 1)
      outcome := Function.update map.outcome thread none
      started := map.started ++ [⟨thread, map.calls thread + 1, call⟩] } := by
  have fresh : (thread, map.calls thread + 1) ∉
      map.started.map fun call => (call.thread, call.call) := by
    intro member
    obtain ⟨old, found, same⟩ := List.mem_map.mp member
    obtain ⟨sameThread, sameCall⟩ := Prod.mk.inj same
    have before := attributed.numbered old found
    rw [sameThread, sameCall] at before
    omega
  refine ⟨?_, ?_, ?_, ?_⟩
  · intro entry member
    obtain ⟨request, found, belongs⟩ := attributed.entries entry member
    exact ⟨request, List.mem_append_left _ found, belongs⟩
  · intro other member
    rcases List.mem_append.mp member with old | new
    · exact attributed.scheduled other old
    · rw [List.mem_singleton.mp new]
      exact scheduled
  · intro other member
    rcases List.mem_append.mp member with old | new
    · have before := attributed.numbered other old
      by_cases same : other.thread = thread
      · rw [same] at before
        simp only [same, Function.update_self]
        omega
      · simpa [same] using before
    · rw [List.mem_singleton.mp new]
      simp
  · rw [List.map_append, List.nodup_append]
    refine ⟨attributed.once, List.nodup_singleton _, ?_⟩
    intro old member new newMember same
    rw [List.mem_singleton.mp newMember] at same
    rw [same] at member
    exact fresh member

theorem current_other {before : SyncMap} {phase : CallPhase} {other : Nat}
    (grows : ∀ call ∈ before.started, call ∈ map.started)
    (same : map.calls other = before.calls other) (current : Current moves other before phase) :
    Current moves other map phase := by
  cases phase with
  | idle => trivial
  | waiting call => exact current
  | running call =>
      refine ⟨current.1, ?_⟩
      rw [same]
      exact grows _ current.2

theorem current_update {phases : Nat → CallPhase} {phase : CallPhase}
    (own : Current moves thread map phase)
    (others : ∀ other, other ≠ thread → Current moves other map (phases other)) (other : Nat) :
    Current moves other map (Function.update phases thread phase other) := by
  by_cases same : other = thread
  · rw [same, Function.update_self]
    exact own
  · rw [Function.update_of_ne same]
    exact others other same

theorem attributed_act {phases : Nat → CallPhase} {action : SyncAction} {response : action.Response}
    (attributed : Attributed moves map) (current : ∀ thread, Current moves thread map (phases thread))
    (allowed : (phases thread).Allows action)
    (performed : perform config thread action map = some (response, after)) :
    Attributed moves after ∧ ∀ other, Current moves other after
      (Function.update phases thread (phases thread).next other) := by
  have own := current thread
  cases phase : phases thread with
  | idle =>
      rw [phase] at allowed
      exact allowed.elim
  | waiting call =>
      rw [phase] at own allowed
      obtain rfl : action = .begin call := allowed
      obtain rfl := (Prod.mk.inj (Option.some.inj performed)).2
      refine ⟨attributed_begin attributed own, current_update ⟨own, by simp⟩ ?_⟩
      intro other different
      exact current_other (fun _ member => List.mem_append_left _ member)
        (Function.update_of_ne different _ _) (current other)
  | running call =>
      rw [phase] at own allowed
      obtain ⟨calls, started, history⟩ := perform_history allowed performed
      have unchanged : ∀ other phase, Current moves other map phase →
          Current moves other after phase := fun other phase =>
        current_other (fun _ member => by rw [started]; exact member) (by rw [calls])
      refine ⟨⟨?_, ?_, ?_, ?_⟩, current_update (unchanged thread _ own)
        fun other _ => unchanged other _ (current other)⟩
      · rw [started]
        rcases history with same | ⟨event, belongs, grown⟩
        · rw [same]
          exact attributed.entries
        · rw [grown]
          intro entry member
          rcases List.mem_append.mp member with old | new
          · exact attributed.entries entry old
          · rw [List.mem_singleton.mp new]
            exact ⟨call, own.2, belongs⟩
      · rw [started]
        exact attributed.scheduled
      · rw [started, calls]
        exact attributed.numbered
      · rw [started]
        exact attributed.once

def attribution (config : SyncConfig) (moves : SyncMoves) :
    Account (callDiscipline config) (SyncCall.program config) where
  start := CallPhase.waiting
  Final := fun _ => True
  Allowed := fun thread call => .call thread call ∈ moves
  Known := fun _ => True
  Invariant := fun phases map => Attributed moves map ∧
    ∀ thread, Current moves thread map (phases thread)
  follows := fun _ call _ => call.program_follows
  begins := fun _ _ _ _ scheduled _ holds _ =>
    ⟨holds.1, current_update scheduled fun other _ => holds.2 other⟩
  acts := fun _ _ _ _ _ _ _ holds allowed performed =>
    attributed_act holds.1 holds.2 allowed performed

theorem run_attributed (config : SyncConfig) (numBuckets : Nat) (moves : SyncMoves) :
    Attributed moves (syncRun config numBuckets moves).shared := by
  have start : (attribution config moves).Kept (fun _ => .idle) (syncSystem config numBuckets) := by
    refine ⟨fun _ => trivial, ⟨?_, ?_, ?_, ?_⟩, fun _ => trivial⟩ <;>
      simp [syncSystem, SyncMap.new]
  obtain ⟨phases, kept⟩ := Account.kept_run start moves (fun _ _ _ => trivial)
    (fun _ _ member => member)
  exact kept.invariant.1

end SyncMap

end PulseMap
