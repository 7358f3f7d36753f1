import PulseMap.Library.Discipline
import PulseMap.Sync.Reachable

/-!
What the calls do beside their locks: a drain applies just the access that its last pop has
returned, and an insert takes a slab entry only for a pair that does not fit its slot.
-/

namespace PulseMap

/-- The last call of the thread on the access buffer, while the lock of the map is held that it
was made under. -/
abbrev BufferAnswer := Option (BufferCall 64)

/-- What the action asks of the last buffer call and of its own operands. -/
def SyncAction.Suits (answer : BufferAnswer) : SyncAction → Prop
  | .bufferStep => ∃ call, answer = some call ∧ call.returned = false
  | .onAccess bucketIdx slot => ∃ event : Access 64, answer = some (.popped (some event)) ∧
      bucketIdx = event.1.toNat ∧ slot.val = event.2.toNat % 4
  | .slabAlloc _ _ key value => ¬Slot.FitsInline key value ∧ key.length + value.length < 2 ^ 32
  | _ => True

def BufferAnswer.next (answer : BufferAnswer) : (action : SyncAction) → action.Response → BufferAnswer
  | .startPush _, call => some call
  | .startPop, call => some call
  | .bufferStep, call => some call
  | .readUnlock, _ => none
  | .writeUnlock, _ => none
  | .poison, _ => none
  | .rehash _, _ => none
  | _, _ => answer

def accessDiscipline (config : SyncConfig) : Discipline (syncMachine config) where
  Local := BufferAnswer
  Allows := fun answer action => SyncAction.Suits answer action
  next := BufferAnswer.next

namespace SyncProgram

variable {config : SyncConfig} {Result Next : Type}

abbrev Tidy (program : SyncProgram config Result) : Prop :=
  ∀ answer, (accessDiscipline config).Follows program (fun _ _ => True) answer

theorem tidy_bind {program : SyncProgram config Result} {next : Result → SyncProgram config Next}
    (tidy : Tidy program) (rest : ∀ result, Tidy (next result)) : Tidy (program >>= next) :=
  fun answer => Discipline.follows_bind
    (Discipline.follows_mono (tidy answer) fun result final _ => rest result final)

theorem tidy_atomic {action : SyncAction} (suits : ∀ answer, action.Suits answer) :
    Tidy (atomic action : SyncProgram config _) := fun answer => ⟨suits answer, fun _ => trivial⟩

theorem tidy_pure (result : Result) : Tidy (pure result : SyncProgram config Result) := fun _ => trivial

theorem tidy_panic : Tidy (.panic : SyncProgram config Result) := fun _ => trivial

theorem tidy_if {test : Prop} [Decidable test] {yes no : SyncProgram config Result}
    (onYes : Tidy yes) (onNo : Tidy no) : Tidy (if test then yes else no) := by
  split_ifs
  · exact onYes
  · exact onNo

theorem tidy_or_panic (answer : Option Result) :
    Tidy (orPanic answer : SyncProgram config Result) := by
  cases answer
  · exact tidy_panic
  · exact tidy_pure _

/-! ### The access buffer -/

theorem follows_act {action : SyncAction} {next : action.Response → SyncProgram config Next}
    {post : Next → BufferAnswer → Prop} {answer : BufferAnswer} (suits : action.Suits answer)
    (rest : ∀ response,
      (accessDiscipline config).Follows (next response) post (answer.next action response)) :
    (accessDiscipline config).Follows (atomic action >>= next) post answer := ⟨suits, rest⟩

theorem follows_complete_call (fuel : Nat) (call : BufferCall 64) :
    (accessDiscipline config).Follows (completeCall fuel call : SyncProgram config _)
      (fun result final => final = some result) (some call) := by
  induction fuel generalizing call with
  | zero => rfl
  | succ fuel induction =>
      rw [completeCall]
      split_ifs with returned
      · rfl
      · exact ⟨⟨call, rfl, Bool.not_eq_true _ ▸ returned⟩, induction⟩

theorem tidy_push (bucketIdx : Nat) (slot : Fin 4) :
    Tidy (push bucketIdx slot : SyncProgram config _) := fun _ =>
  follows_act trivial fun call => Discipline.follows_bind
    (Discipline.follows_mono (follows_complete_call 5 call) fun _ _ _ => trivial)

/-- What a pop returns is what the thread's last buffer call has returned. -/
theorem follows_pop (answer : BufferAnswer) :
    (accessDiscipline config).Follows (pop : SyncProgram config _)
      (fun event final => ∀ access, event = some access → final = some (.popped (some access)))
      answer := by
  refine follows_act trivial fun call => Discipline.follows_bind
    (Discipline.follows_mono (follows_complete_call 5 call) ?_)
  rintro result final rfl
  cases result with
  | popped event =>
      rintro access rfl
      rfl
  | _ =>
      intro access absent
      cases absent

theorem tidy_pop : Tidy (pop : SyncProgram config _) := fun answer =>
  Discipline.follows_mono (follows_pop answer) fun _ _ _ => trivial

theorem tidy_clear (budget : Nat) : Tidy (clear budget : SyncProgram config _) := by
  induction budget with
  | zero => exact tidy_pure _
  | succ budget induction =>
      refine tidy_bind tidy_pop fun event => ?_
      cases event with
      | none => exact tidy_pure _
      | some event => exact induction

/-! ### Locks -/

theorem tidy_read_inner : Tidy (readInner : SyncProgram config _) :=
  tidy_bind (tidy_atomic fun _ => trivial) fun _ => tidy_bind (tidy_atomic fun _ => trivial) fun _ =>
    tidy_if (tidy_bind (tidy_atomic fun _ => trivial) fun _ => tidy_panic) (tidy_pure _)

theorem tidy_unwind_write : Tidy (unwindWrite : SyncProgram config Result) :=
  tidy_bind (tidy_atomic fun _ => trivial) fun _ => tidy_panic

theorem tidy_write_inner : Tidy (writeInner : SyncProgram config _) :=
  tidy_bind (tidy_atomic fun _ => trivial) fun _ => tidy_bind (tidy_atomic fun _ => trivial) fun _ =>
    tidy_if tidy_unwind_write (tidy_pure _)

theorem tidy_lock_bucket (bucketIdx : Nat) :
    Tidy (lockBucket bucketIdx : SyncProgram config _) :=
  tidy_bind (tidy_atomic fun _ => trivial) fun _ => tidy_if (tidy_pure _) tidy_panic

theorem tidy_drain (budget : Nat) : Tidy (drain budget : SyncProgram config _) := by
  induction budget with
  | zero => exact tidy_pure _
  | succ budget induction =>
      intro answer
      refine Discipline.follows_bind (Discipline.follows_mono (follows_pop answer) ?_)
      intro event final popped
      cases event with
      | none => exact trivial
      | some access =>
          refine ⟨trivial, fun locked => ?_⟩
          cases locked with
          | false => exact trivial
          | true => exact ⟨⟨access, popped access rfl, rfl, rfl⟩, fun _ => ⟨trivial, fun _ => induction _⟩⟩

theorem tidy_with_bucket {h1 : Word} {before : SyncProgram config Unit}
    {body : Nat → Bucket → SyncProgram config Result} (first : Tidy before)
    (inner : ∀ bucketIdx bucket, Tidy (body bucketIdx bucket)) :
    Tidy (withBucket h1 before body) :=
  tidy_bind tidy_read_inner fun _ => tidy_bind (tidy_atomic fun _ => trivial) fun _ =>
    tidy_bind first fun _ => tidy_bind (tidy_lock_bucket _) fun _ =>
      tidy_bind (tidy_atomic fun _ => trivial) fun _ => tidy_bind (inner _ _) fun _ =>
        tidy_bind (tidy_atomic fun _ => trivial) fun _ => tidy_bind (tidy_atomic fun _ => trivial) fun _ =>
          tidy_pure _

theorem tidy_is_expired (bucketIdx : Nat) (slot : Fin 4) :
    Tidy (isExpired bucketIdx slot : SyncProgram config _) :=
  tidy_bind (tidy_atomic fun _ => trivial) fun _ =>
    tidy_bind (tidy_if (tidy_atomic fun _ => trivial) (tidy_pure _)) fun _ =>
      tidy_if (tidy_pure _) (tidy_bind (tidy_atomic fun _ => trivial) fun _ => tidy_pure _)

theorem tidy_stamp_epoch (bucketIdx : Nat) (slot : Fin 4) (ttl : Word) :
    Tidy (stampEpoch bucketIdx slot ttl : SyncProgram config _) :=
  tidy_bind (tidy_atomic fun _ => trivial) fun _ => tidy_atomic fun _ => trivial

theorem tidy_find_slot (bucket : Bucket) (key : Bytes) (hr : HashResult) (slots : List (Fin 4)) :
    Tidy (findSlot bucket key hr slots : SyncProgram config _) := by
  induction slots with
  | nil => exact tidy_pure _
  | cons slot rest induction =>
      exact tidy_bind (tidy_atomic fun _ => trivial) fun _ => tidy_bind (tidy_or_panic _) fun _ =>
        tidy_if (tidy_pure _) induction

theorem tidy_get_slot (bucket : Bucket) (key : Bytes) (hr : HashResult) (slots : List (Fin 4)) :
    Tidy (getSlot bucket key hr slots : SyncProgram config _) := by
  induction slots with
  | nil => exact tidy_pure _
  | cons slot rest induction =>
      refine tidy_bind ?_ fun _ => tidy_if (tidy_pure _) induction
      exact tidy_if (tidy_pure _) (tidy_if (tidy_pure _) (tidy_if (tidy_pure _)
        (tidy_bind (tidy_atomic fun _ => trivial) fun _ => tidy_or_panic _)))

theorem tidy_release_slab (bucketIdx : Nat) (slot : Fin 4) (data : Slot) :
    Tidy (releaseSlab bucketIdx slot data : SyncProgram config _) :=
  tidy_if (tidy_atomic fun _ => trivial) (tidy_pure _)

/-- The one place where the calls allocate. -/
theorem tidy_store_pair {key value : Bytes} (small : key.length + value.length < 2 ^ 32)
    (bucketIdx : Nat) (slot : Fin 4) (data : Slot) (hr : HashResult) :
    Tidy (storePair bucketIdx slot data key value hr : SyncProgram config _) := by
  unfold storePair
  split_ifs with fits
  · exact tidy_pure _
  · exact tidy_bind (tidy_atomic fun _ => ⟨fits, small⟩) fun _ =>
      tidy_bind (tidy_or_panic _) fun _ => tidy_pure _

theorem tidy_rehash_loop (fuel newActual : Nat) :
    Tidy (rehashLoop fuel newActual : SyncProgram config _) := by
  induction fuel generalizing newActual with
  | zero => exact tidy_unwind_write
  | succ fuel induction =>
      refine tidy_bind (tidy_atomic fun _ => trivial) fun answer => ?_
      rcases answer with _ | _ | count
      · exact tidy_unwind_write
      · exact induction _
      · exact tidy_atomic fun _ => trivial

theorem tidy_resize (newNumBuckets : Nat) :
    Tidy (SyncProgram.resize newNumBuckets : SyncProgram config _) :=
  tidy_bind tidy_write_inner fun _ => tidy_bind (tidy_atomic fun _ => trivial) fun _ =>
    tidy_bind (tidy_if (tidy_pure _) (tidy_bind (tidy_clear _) fun _ => tidy_rehash_loop _ _))
      fun _ => tidy_bind (tidy_atomic fun _ => trivial) fun _ => tidy_atomic fun _ => trivial

theorem tidy_auto_resize : Tidy (autoResize : SyncProgram config _) :=
  tidy_if (tidy_bind tidy_read_inner fun _ => tidy_bind (tidy_atomic fun _ => trivial) fun _ =>
    tidy_bind (tidy_atomic fun _ => trivial) fun _ => tidy_bind (tidy_atomic fun _ => trivial) fun _ =>
      tidy_if (tidy_resize _) (tidy_pure _)) (tidy_pure _)

theorem tidy_place_into {key value : Bytes} (small : key.length + value.length < 2 ^ 32) (ttl : Word)
    (bucketIdx : Nat) (bucket : Bucket) (slot : Fin 4) (isEviction : Bool) :
    Tidy (placeInto bucketIdx bucket slot isEviction key value ttl : SyncProgram config _) :=
  tidy_bind (tidy_store_pair small _ _ _ _) fun _ => tidy_bind (tidy_atomic fun _ => trivial) fun _ =>
    tidy_bind (tidy_stamp_epoch _ _ _) fun _ => tidy_if (tidy_pure _) (tidy_atomic fun _ => trivial)

theorem tidy_insert_body {key value : Bytes} (small : key.length + value.length < 2 ^ 32) (ttl : Word)
    (bucketIdx : Nat) (bucket : Bucket) :
    Tidy (insertBody key value ttl bucketIdx bucket : SyncProgram config _) := by
  refine tidy_bind (tidy_find_slot _ _ _ _) fun found => ?_
  cases found with
  | some slot =>
      exact tidy_bind (tidy_release_slab _ _ _) fun _ =>
        tidy_bind (tidy_store_pair small _ _ _ _) fun _ => tidy_bind (tidy_atomic fun _ => trivial)
          fun _ => tidy_stamp_epoch _ _ _
  | none =>
      dsimp only
      split
      · exact tidy_place_into small _ _ _ _ _
      · split
        · exact tidy_bind (tidy_release_slab _ _ _) fun _ => tidy_bind (tidy_atomic fun _ => trivial)
            fun _ => tidy_place_into small _ _ _ _ _
        · exact tidy_pure _

theorem tidy_get_found (key : Bytes) (bucketIdx : Nat) (bucket : Bucket) :
    Tidy (getFound key bucketIdx bucket : SyncProgram config _) := by
  refine tidy_bind (tidy_get_slot _ _ _ _) fun found => ?_
  cases found with
  | none => exact tidy_pure _
  | some slot =>
      exact tidy_bind (tidy_is_expired _ _) fun _ => tidy_if (tidy_pure _)
        (tidy_bind (tidy_push _ _) fun _ => tidy_if (tidy_pure _)
          (tidy_bind (tidy_atomic fun _ => trivial) fun _ => tidy_bind (tidy_or_panic _) fun _ =>
            tidy_pure _))

theorem tidy_peek_slots (key : Bytes) (hr : HashResult) (bucketIdx : Nat) (bucket : Bucket)
    (slots : List (Fin 4)) :
    Tidy (peekSlots key hr bucketIdx bucket slots : SyncProgram config _) := by
  induction slots with
  | nil => exact tidy_pure _
  | cons slot rest induction =>
      refine tidy_bind (tidy_atomic fun _ => trivial) fun _ => tidy_bind (tidy_atomic fun _ => trivial) fun _ =>
        tidy_bind (tidy_or_panic _) fun _ => tidy_if ?_ ?_
      · refine tidy_bind (tidy_is_expired _ _) fun _ => tidy_if ?_ ?_
        · exact tidy_bind (tidy_atomic fun _ => trivial) fun _ => tidy_pure _
        · exact tidy_bind (tidy_atomic fun _ => trivial) fun _ => tidy_bind (tidy_or_panic _) fun _ =>
            tidy_bind (tidy_atomic fun _ => trivial) fun _ => tidy_pure _
      · exact tidy_bind (tidy_atomic fun _ => trivial) fun _ => induction

theorem tidy_remove_body (key : Bytes) (bucketIdx : Nat) (bucket : Bucket) :
    Tidy (removeBody key bucketIdx bucket : SyncProgram config _) := by
  refine tidy_bind (tidy_find_slot _ _ _ _) fun found => ?_
  cases found with
  | none => exact tidy_bind (tidy_atomic fun _ => trivial) fun _ => tidy_pure _
  | some slot =>
      exact tidy_bind (tidy_release_slab _ _ _) fun _ => tidy_bind (tidy_atomic fun _ => trivial)
        fun _ => tidy_bind (tidy_atomic fun _ => trivial) fun _ => tidy_pure _

end SyncProgram

namespace SyncCall

open SyncProgram

variable {config : SyncConfig}

theorem tidy_body (call : SyncCall) (sized : call.Sized) : Tidy (call.body config) := by
  cases call with
  | insert key value ttl =>
      exact tidy_bind tidy_auto_resize fun _ => tidy_bind (tidy_atomic fun _ => trivial) fun _ =>
        tidy_bind (tidy_with_bucket (tidy_drain _) fun _ _ => tidy_insert_body sized _ _ _)
          fun _ => tidy_pure _
  | get key =>
      exact tidy_bind (tidy_with_bucket (tidy_pure _) fun _ _ =>
        tidy_bind (tidy_get_found _ _ _) fun _ => tidy_bind (tidy_atomic fun _ => trivial) fun _ =>
          tidy_pure _) fun _ => tidy_pure _
  | peek key =>
      exact tidy_bind (tidy_with_bucket (tidy_pure _) fun _ _ =>
        tidy_bind (tidy_peek_slots _ _ _ _ _) fun _ => tidy_bind (tidy_atomic fun _ => trivial) fun _ =>
          tidy_pure _) fun _ => tidy_pure _
  | remove key =>
      exact tidy_bind (tidy_with_bucket (tidy_pure _) fun _ _ => tidy_remove_body _ _ _)
        fun _ => tidy_pure _
  | resize newNumBuckets => exact tidy_bind (tidy_resize _) fun _ => tidy_pure _
  | setTtl ttl => exact tidy_bind (tidy_atomic fun _ => trivial) fun _ => tidy_pure _
  | capacity =>
      exact tidy_bind tidy_read_inner fun _ => tidy_bind (tidy_atomic fun _ => trivial) fun _ =>
        tidy_bind (tidy_atomic fun _ => trivial) fun _ => tidy_pure _

theorem tidy_program (call : SyncCall) (sized : call.Sized) : Tidy (call.program config) :=
  tidy_bind (tidy_atomic fun _ => trivial) fun _ => tidy_bind (tidy_body call sized) fun _ =>
    tidy_atomic fun _ => trivial

end SyncCall

end PulseMap
