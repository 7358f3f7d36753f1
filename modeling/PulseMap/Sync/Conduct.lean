import PulseMap.Sync.Standing

/-!
Every call of the map keeps to the rules of its standings, part by part: a part that only
reads leaves the standing alone, and each write is followed by its stamp and its change of
the counter before the bucket is released.
-/

namespace PulseMap

namespace SyncProgram

variable {config : SyncConfig} {Result Next : Type} {place : Standing}

def Conducts (program : SyncProgram config Result) (post : Result → Standing → Prop)
    (place : Standing) : Prop :=
  (standingDiscipline config).Follows program post place

/-- The program keeps to the rules and ends in the standing it started from. -/
def Neutral (place : Standing) (program : SyncProgram config Result) : Prop :=
  Conducts program (fun _ final => final = place) place

theorem conducts_bind {program : SyncProgram config Result}
    {next : Result → SyncProgram config Next} {post : Next → Standing → Prop}
    (conducts : Conducts program (fun result => Conducts (next result) post) place) :
    Conducts (program >>= next) post place :=
  Discipline.follows_bind conducts

theorem conducts_mono {program : SyncProgram config Result}
    {strong weak : Result → Standing → Prop} (conducts : Conducts program strong place)
    (implies : ∀ result final, strong result final → weak result final) :
    Conducts program weak place :=
  Discipline.follows_mono conducts implies

theorem conducts_atomic {action : SyncAction}
    {next : action.Response → SyncProgram config Next} {post : Next → Standing → Prop}
    (allows : place.Allows config action)
    (rest : ∀ response, Conducts (next response) post (place.next action response)) :
    Conducts (atomic action >>= next) post place := ⟨allows, rest⟩

theorem conducts_last {action : SyncAction} {post : action.Response → Standing → Prop}
    (allows : place.Allows config action)
    (rest : ∀ response, post response (place.next action response)) :
    Conducts (atomic action : SyncProgram config _) post place := ⟨allows, rest⟩

theorem conducts_neutral {program : SyncProgram config Result}
    {next : Result → SyncProgram config Next} {post : Next → Standing → Prop}
    (neutral : Neutral place program) (rest : ∀ result, Conducts (next result) post place) :
    Conducts (program >>= next) post place := by
  apply conducts_bind
  apply conducts_mono neutral
  rintro result _ rfl
  exact rest result

theorem conducts_or_panic {answer : Option Result} {next : Result → SyncProgram config Next}
    {post : Next → Standing → Prop} (rest : ∀ result, Conducts (next result) post place) :
    Conducts (orPanic answer >>= next) post place := by
  cases answer with
  | none => trivial
  | some result => exact rest result

theorem conducts_if {test : Prop} [Decidable test] {yes no : SyncProgram config Result}
    {post : Result → Standing → Prop} (onYes : test → Conducts yes post place)
    (onNo : ¬test → Conducts no post place) : Conducts (if test then yes else no) post place := by
  split_ifs with holds
  · exact onYes holds
  · exact onNo holds

theorem neutral_pure (result : Result) : Neutral place (pure result : SyncProgram config Result) :=
  rfl

theorem neutral_atomic {action : SyncAction} (allows : place.Allows config action)
    (same : ∀ response, place.next action response = place) :
    Neutral place (atomic action : SyncProgram config _) := ⟨allows, same⟩

theorem neutral_bind {program : SyncProgram config Result}
    {next : Result → SyncProgram config Next} (first : Neutral place program)
    (rest : ∀ result, Neutral place (next result)) : Neutral place (program >>= next) :=
  conducts_neutral first rest

theorem neutral_or_panic (answer : Option Result) :
    Neutral place (orPanic answer : SyncProgram config Result) := by
  cases answer <;> trivial

theorem neutral_if {test : Prop} [Decidable test] {yes no : SyncProgram config Result}
    (onYes : Neutral place yes) (onNo : Neutral place no) :
    Neutral place (if test then yes else no) :=
  conducts_if (fun _ => onYes) fun _ => onNo

/-! ### The access buffer -/

theorem neutral_complete_call (fuel : Nat) (call : BufferCall 64) :
    Neutral place (completeCall fuel call : SyncProgram config _) := by
  induction fuel generalizing call with
  | zero => exact neutral_pure _
  | succ fuel induction =>
      apply neutral_if (neutral_pure _)
      exact neutral_bind (neutral_atomic trivial fun _ => rfl) induction

theorem neutral_push (bucketIdx : Nat) (slot : Fin 4) :
    Neutral place (push bucketIdx slot : SyncProgram config _) := by
  refine neutral_bind (neutral_atomic trivial fun _ => rfl) fun call => ?_
  exact neutral_bind (neutral_complete_call 5 call) fun _ => neutral_pure _

theorem neutral_pop : Neutral place (pop : SyncProgram config _) := by
  refine neutral_bind (neutral_atomic trivial fun _ => rfl) fun call => ?_
  apply neutral_bind (neutral_complete_call 5 call)
  intro result
  cases result <;> exact neutral_pure _

theorem neutral_clear (budget : Nat) : Neutral place (clear budget : SyncProgram config _) := by
  induction budget with
  | zero => exact neutral_pure _
  | succ budget induction =>
      apply neutral_bind neutral_pop
      intro event
      cases event with
      | none => exact neutral_pure _
      | some event => exact induction

/-! ### Locks -/

theorem conducts_lock_bucket {bucketIdx : Nat} {next : Unit → SyncProgram config Next}
    {post : Next → Standing → Prop} (held : place.held = [.shared]) (view : place.view = none)
    (duty : place.duty = .clear)
    (rest : Conducts (next ()) post { place with held := [.bucket bucketIdx, .shared] }) :
    Conducts (lockBucket bucketIdx >>= next) post place := by
  refine ⟨⟨held, view, duty⟩, ?_⟩
  intro locked
  cases locked with
  | false => trivial
  | true =>
      have entered : place.next (.lockBucket bucketIdx) true =
          { place with held := [.bucket bucketIdx, .shared] } := by
        simp [Standing.next, held]
      change Conducts (next ()) post (place.next (.lockBucket bucketIdx) true)
      rw [entered]
      exact rest

/-- Each event of the drain takes and releases the lock of its own bucket. -/
theorem neutral_drain (held : place.held = [.shared]) (view : place.view = none)
    (duty : place.duty = .clear) (budget : Nat) :
    Neutral place (drain budget : SyncProgram config _) := by
  induction budget with
  | zero => exact neutral_pure _
  | succ budget induction =>
      apply neutral_bind neutral_pop
      intro event
      cases event with
      | none => exact neutral_pure _
      | some event =>
          apply conducts_lock_bucket held view duty
          refine conducts_atomic ⟨rfl, view⟩ fun _ => conducts_atomic ⟨rfl, duty⟩ fun _ => ?_
          have back : ({ place with held := [.shared], view := none } : Standing) = place := by
            rw [← held, ← view]
          change Conducts (drain budget) _ { place with held := [.shared], view := none }
          rw [back]
          exact induction

/-! ### Reading a bucket -/

section Reading

variable {bucketIdx : Nat}

theorem neutral_is_expired {slot : Fin 4} (reads : place.Reads bucketIdx)
    (duty : place.duty = .clear) (sees : place.Sees slot True) :
    Neutral place (isExpired bucketIdx slot : SyncProgram config _) := by
  have epoch : ∀ response, place.next .loadEpoch response = place := by
    intro response
    obtain ⟨call, held, view, owed, load, size, removed, advanced⟩ := place
    cases duty
    rfl
  refine neutral_bind (neutral_atomic ⟨reads, duty, sees⟩ fun _ => rfl) fun entry => ?_
  refine neutral_bind (neutral_if (neutral_atomic trivial fun _ => rfl) (neutral_pure _)) fun ttl => ?_
  apply neutral_if (neutral_pure _)
  exact neutral_bind (neutral_atomic trivial epoch) fun _ => neutral_pure _

theorem conducts_find_slot (inside : place.InBucket bucketIdx) (bucket : Bucket) (key : Bytes)
    (hr : HashResult) (slots : List (Fin 4)) :
    Conducts (findSlot bucket key hr slots : SyncProgram config _)
      (fun found final => final = place ∧ ∀ slot, found = some slot → slot ∈ slots) place := by
  induction slots with
  | nil => exact ⟨rfl, by simp⟩
  | cons slot rest induction =>
      refine conducts_atomic ⟨bucketIdx, inside⟩ fun answer => conducts_or_panic fun matched => ?_
      cases matched with
      | true =>
          refine ⟨rfl, ?_⟩
          intro other same
          rw [← Option.some.inj same]
          exact List.mem_cons_self
      | false =>
          apply conducts_mono induction
          rintro found final ⟨same, members⟩
          exact ⟨same, fun other is => List.mem_cons_of_mem _ (members other is)⟩

theorem conducts_get_slot (inside : place.InBucket bucketIdx) (bucket : Bucket) (key : Bytes)
    (hr : HashResult) (slots : List (Fin 4)) :
    Conducts (getSlot bucket key hr slots : SyncProgram config _)
      (fun found final => final = place ∧ ∀ slot, found = some slot → slot ∈ slots) place := by
  have compare : ∀ data, Neutral place (getMatches data key hr : SyncProgram config _) := by
    intro data
    apply neutral_if (neutral_pure _)
    apply neutral_if (neutral_pure _)
    apply neutral_if (neutral_pure _)
    exact neutral_bind (neutral_atomic ⟨bucketIdx, inside⟩ fun _ => rfl) neutral_or_panic
  induction slots with
  | nil => exact ⟨rfl, by simp⟩
  | cons slot rest induction =>
      apply conducts_neutral (compare (bucket.slots slot))
      intro matched
      apply conducts_if
      · intro _
        refine ⟨rfl, ?_⟩
        intro other same
        rw [← Option.some.inj same]
        exact List.mem_cons_self
      · intro _
        apply conducts_mono induction
        rintro found final ⟨same, members⟩
        exact ⟨same, fun other is => List.mem_cons_of_mem _ (members other is)⟩

theorem candidates_state {bucket : Bucket} {hr : HashResult} {slot : Fin 4}
    (member : slot ∈ bucket.candidates hr) : bucket.metaWord.getState slot = .full := by
  rw [Bucket.candidates, MetaWord.scan_match_mask] at member
  have full := (List.mem_filter.mp member).2
  simp only [decide_eq_true_eq] at full
  exact full.1

theorem neutral_get_found (inside : place.InBucket bucketIdx) (duty : place.duty = .clear)
    {bucket : Bucket} (view : place.view = some bucket) (key : Bytes) :
    Neutral place (getFound key bucketIdx bucket : SyncProgram config _) := by
  apply conducts_bind
  apply conducts_mono (conducts_get_slot inside bucket key (config.hash key) _)
  rintro found final ⟨same, members⟩
  subst same
  cases found with
  | none => exact neutral_pure _
  | some slot =>
      have full := candidates_state (members slot rfl)
      apply neutral_bind (neutral_is_expired (Or.inl inside) duty ⟨bucket, view, iff_true_intro full⟩)
      intro expired
      apply neutral_if (neutral_pure _)
      apply neutral_bind (neutral_push bucketIdx slot)
      intro _
      apply neutral_if (neutral_pure _)
      refine neutral_bind (neutral_atomic ⟨bucketIdx, inside⟩ fun _ => rfl) fun answer => ?_
      exact neutral_bind (neutral_or_panic answer) fun _ => neutral_pure _

/-- `peek` keeps the slab mutex through its expiry test and releases it on every path. -/
theorem neutral_peek_slots (inside : place.InBucket bucketIdx) (duty : place.duty = .clear)
    {bucket : Bucket} (view : place.view = some bucket) (key : Bytes) (hr : HashResult)
    (slots : List (Fin 4)) (full : ∀ slot ∈ slots, bucket.metaWord.getState slot = .full) :
    Neutral place (peekSlots key hr bucketIdx bucket slots : SyncProgram config _) := by
  have held : place.held = [.bucket bucketIdx, .shared] := inside
  have guarded : place.next .slabLock () =
      { place with held := [.slab true, .bucket bucketIdx, .shared] } := by
    simp [Standing.next, held]
  have back : ({ place with held := [.bucket bucketIdx, .shared] } : Standing) = place := by
    rw [← held]
  have expiry : ∀ slot, bucket.metaWord.getState slot = .full →
      Neutral { place with held := [.slab true, .bucket bucketIdx, .shared] }
        (isExpired bucketIdx slot : SyncProgram config _) := by
    intro slot full
    apply neutral_is_expired
    · exact Or.inr rfl
    · exact duty
    · exact ⟨bucket, view, iff_true_intro full⟩
  induction slots with
  | nil => exact neutral_pure _
  | cons slot rest induction =>
      refine conducts_atomic ⟨bucketIdx, inside⟩ fun _ => ?_
      rw [guarded]
      refine conducts_atomic ⟨bucketIdx, rfl⟩ fun answer => conducts_or_panic fun matched => ?_
      apply conducts_if
      · intro _
        refine conducts_neutral (expiry slot (full slot List.mem_cons_self)) fun expired => ?_
        apply conducts_if
        · exact fun _ => conducts_atomic ⟨bucketIdx, rfl⟩ fun _ => back
        · intro _
          refine conducts_atomic ⟨bucketIdx, rfl⟩ fun answer => conducts_or_panic fun value => ?_
          exact conducts_atomic ⟨bucketIdx, rfl⟩ fun _ => back
      · intro _
        refine conducts_atomic ⟨bucketIdx, rfl⟩ fun _ => ?_
        change Conducts _ _ { place with held := [.bucket bucketIdx, .shared] }
        rw [back]
        exact induction fun other member => full other (List.mem_cons_of_mem _ member)

end Reading

/-! ### Writing a slot -/

section Writing

variable {bucketIdx : Nat} {key value : Bytes} {ttl : Word}

/-- A critical section ends with nothing owed. -/
def Settles (place : Standing) (final : Standing) : Prop :=
  final.held = place.held ∧ final.duty = .clear ∧ final.removed = place.removed

theorem neutral_release_slab (inside : place.InBucket bucketIdx) (slot : Fin 4) (data : Slot) :
    Neutral place (releaseSlab bucketIdx slot data : SyncProgram config _) :=
  neutral_if (neutral_atomic inside fun _ => rfl) (neutral_pure _)

theorem neutral_store_pair (inside : place.InBucket bucketIdx) (slot : Fin 4) (data : Slot)
    (key value : Bytes) (hr : HashResult) :
    Neutral place (storePair bucketIdx slot data key value hr : SyncProgram config _) := by
  apply neutral_if (neutral_pure _)
  refine neutral_bind (neutral_atomic inside fun _ => rfl) fun answer => ?_
  exact neutral_bind (neutral_or_panic answer) fun _ => neutral_pure _

theorem conducts_stamp_epoch {slot : Fin 4} {fresh : Bool} {post : Unit → Standing → Prop}
    (inside : place.InBucket bucketIdx) (duty : place.duty = .unstamped slot fresh)
    (call : place.call = some (.insert key value ttl))
    (rest : post () { place with duty := if fresh then .uncounted else .clear }) :
    Conducts (stampEpoch bucketIdx slot ttl : SyncProgram config _) post place := by
  refine conducts_atomic trivial fun epoch => ?_
  have dated : place.next .loadEpoch epoch = { place with duty := .dated slot fresh epoch } := by
    simp [Standing.next, duty]
  rw [dated]
  refine conducts_last ⟨inside, ⟨fresh, rfl⟩, key, value, call⟩ fun _ => ?_
  cases fresh <;> exact rest

theorem conducts_update {bucket : Bucket} {slot : Fin 4} (inside : place.InBucket bucketIdx)
    (duty : place.duty = .clear) (view : place.view = some bucket)
    (full : bucket.metaWord.getState slot = .full)
    (call : place.call = some (.insert key value ttl)) :
    Conducts (updateInPlace bucketIdx bucket slot key value ttl : SyncProgram config _)
      (fun _ => Settles place) place := by
  refine conducts_neutral (neutral_release_slab inside slot _) fun _ => ?_
  refine conducts_neutral (neutral_store_pair inside slot _ _ _ _) fun data => ?_
  refine conducts_atomic ⟨inside, duty, ⟨bucket, view, iff_true_intro full⟩, ttl, call⟩ fun _ => ?_
  exact conducts_stamp_epoch inside rfl call ⟨rfl, rfl, rfl⟩

theorem conducts_place_free {bucket : Bucket} {slot : Fin 4} (inside : place.InBucket bucketIdx)
    (duty : place.duty = .clear) (view : place.view = some bucket)
    (free : bucket.metaWord.getState slot ≠ .full)
    (call : place.call = some (.insert key value ttl))
    (passed : config.autoResize → place.load.Passed) :
    Conducts (placeInto bucketIdx bucket slot false key value ttl : SyncProgram config _)
      (fun _ => Settles place) place := by
  refine conducts_neutral (neutral_store_pair inside slot _ _ _ _) fun data => ?_
  refine conducts_atomic ⟨inside, ⟨ttl, call⟩, Or.inl ⟨duty, bucket, view, iff_false_intro free⟩⟩
    fun _ => ?_
  have owed : (place.next (.placeSlot bucketIdx slot (config.hash key).h2 data key value) ()).duty =
      .unstamped slot true := by
    simp [Standing.next, duty]
  refine conducts_bind (conducts_stamp_epoch inside owed call ?_)
  exact conducts_last ⟨⟨bucketIdx, inside⟩, rfl, passed⟩ fun _ => ⟨rfl, rfl, rfl⟩

theorem conducts_place_victim {bucket : Bucket} {slot : Fin 4} (inside : place.InBucket bucketIdx)
    (duty : place.duty = .evicting) (view : place.view = some bucket)
    (full : bucket.metaWord.getState slot = .full)
    (call : place.call = some (.insert key value ttl)) :
    Conducts (placeInto bucketIdx bucket slot true key value ttl : SyncProgram config _)
      (fun _ => Settles place) place := by
  refine conducts_neutral (neutral_store_pair inside slot _ _ _ _) fun data => ?_
  refine conducts_atomic ⟨inside, ⟨ttl, call⟩, Or.inr ⟨duty, bucket, view, iff_true_intro full⟩⟩
    fun _ => ?_
  have owed : (place.next (.placeSlot bucketIdx slot (config.hash key).h2 data key value) ()).duty =
      .unstamped slot false := by
    simp [Standing.next, duty]
  exact conducts_bind (conducts_stamp_epoch inside owed call ⟨rfl, rfl, rfl⟩)

theorem conducts_insert_body {bucket : Bucket} (inside : place.InBucket bucketIdx)
    (duty : place.duty = .clear) (view : place.view = some bucket)
    (call : place.call = some (.insert key value ttl))
    (passed : config.autoResize → place.load.Passed) :
    Conducts (insertBody key value ttl bucketIdx bucket : SyncProgram config _)
      (fun _ => Settles place) place := by
  apply conducts_bind
  apply conducts_mono (conducts_find_slot inside bucket key (config.hash key) _)
  rintro found final ⟨same, members⟩
  subst same
  cases found with
  | some slot => exact conducts_update inside duty view (candidates_state (members slot rfl)) call
  | none =>
      cases free : bucket.metaWord.findFreeSlot with
      | some slot =>
          exact conducts_place_free inside duty view (MetaWord.find_free_slot_some free).1 call passed
      | none =>
          cases evict : bucket.metaWord.findEvictTarget with
          | none => exact ⟨rfl, duty, rfl⟩
          | some slot =>
              have full := (MetaWord.find_evict_target_some evict).1
              refine conducts_neutral (neutral_release_slab inside slot _) fun _ => ?_
              refine conducts_atomic ⟨⟨bucketIdx, inside⟩, duty⟩ fun _ => ?_
              have placed : Conducts
                  (placeInto bucketIdx bucket slot true key value ttl : SyncProgram config _)
                  (fun _ => Settles (final.next .addEvictionCount ()))
                  (final.next .addEvictionCount ()) := by
                apply conducts_place_victim
                · exact inside
                · rfl
                · exact view
                · exact full
                · exact call
              exact placed

theorem conducts_remove_body {bucket : Bucket} (inside : place.InBucket bucketIdx)
    (duty : place.duty = .clear) (view : place.view = some bucket)
    (call : place.call = some (.remove key)) (unremoved : place.removed = false) :
    Conducts (removeBody key bucketIdx bucket : SyncProgram config _)
      (fun found final => final.held = place.held ∧ final.duty = .clear ∧ final.removed = found)
      place := by
  apply conducts_bind
  apply conducts_mono (conducts_find_slot inside bucket key (config.hash key) _)
  rintro found _ ⟨rfl, members⟩
  cases found with
  | none => exact conducts_atomic rfl fun _ => ⟨rfl, duty, unremoved⟩
  | some slot =>
      have full := candidates_state (members slot rfl)
      refine conducts_neutral (neutral_release_slab inside slot _) fun _ => ?_
      refine conducts_atomic ⟨inside, duty, ⟨bucket, view, iff_true_intro full⟩, call, unremoved⟩
        fun _ => ?_
      exact conducts_atomic ⟨⟨bucketIdx, inside⟩, rfl⟩ fun _ => ⟨rfl, rfl, rfl⟩

end Writing

/-! ### The calls -/

theorem conducts_read_inner {next : Unit → SyncProgram config Next} {post : Next → Standing → Prop}
    (held : place.held = []) (rest : Conducts (next ()) post (place.entered .shared)) :
    Conducts (readInner >>= next) post place := by
  refine conducts_atomic held fun _ => ?_
  have reading : (place.next .readLock ()).held = [.shared] := by simp [Standing.next, held]
  refine conducts_atomic (Or.inl reading) fun poisoned => ?_
  cases poisoned with
  | false =>
      have entered : (place.next .readLock ()).next .isPoisoned false = place.entered .shared := by
        simp [Standing.next, Standing.entered, held]
      rw [entered]
      exact rest
  | true => exact conducts_atomic reading fun _ => trivial

theorem conducts_unwind_write {post : Result → Standing → Prop} (held : place.held = [.exclusive])
    (duty : place.duty = .clear) (doomed : place.doomed = true) :
    Conducts (unwindWrite : SyncProgram config Result) post place :=
  conducts_atomic ⟨held, duty, doomed⟩ fun _ => trivial

theorem conducts_write_inner {next : Unit → SyncProgram config Next} {post : Next → Standing → Prop}
    (held : place.held = []) (duty : place.duty = .clear)
    (rest : Conducts (next ()) post (place.entered .exclusive)) :
    Conducts (writeInner >>= next) post place := by
  refine conducts_atomic held fun _ => ?_
  have writing : (place.next .writeLock ()).held = [.exclusive] := by simp [Standing.next, held]
  refine conducts_atomic (Or.inr writing) fun poisoned => ?_
  cases poisoned with
  | false =>
      have entered : (place.next .writeLock ()).next .isPoisoned false = place.entered .exclusive := by
        simp [Standing.next, Standing.entered, held]
      rw [entered]
      exact rest
  | true => exact conducts_bind (conducts_unwind_write writing duty rfl)

theorem conducts_with_bucket {h1 : Word} {before : SyncProgram config Unit}
    {body : Nat → Bucket → SyncProgram config Result} (final : place.Final)
    (tells : Result → Bool → Prop)
    (first : ∀ reading : Standing, reading.held = [.shared] → reading.view = none →
      reading.duty = .clear → Neutral reading before)
    (inner : ∀ bucketIdx bucket (entered : Standing), entered.InBucket bucketIdx →
      entered.duty = .clear → entered.view = some bucket → entered.call = place.call →
      entered.removed = place.removed → (place.load.Passed → entered.load.Passed) →
      Conducts (body bucketIdx bucket)
        (fun result after => after.held = entered.held ∧ after.duty = .clear ∧
          tells result after.removed) entered) :
    Conducts (withBucket h1 before body)
      (fun result after => after.Final ∧ tells result after.removed) place := by
  obtain ⟨held, view, duty⟩ := final
  refine conducts_read_inner held ?_
  refine conducts_atomic (Or.inl rfl) fun size => ?_
  obtain ⟨numBuckets, mask⟩ := size
  refine conducts_neutral (first _ rfl view duty) fun _ => ?_
  refine conducts_lock_bucket rfl view duty ?_
  refine conducts_atomic ⟨rfl, duty⟩ fun bucket => conducts_bind ?_
  refine conducts_mono (inner _ bucket _ rfl duty rfl rfl rfl ?_) ?_
  · intro passed
    change (place.load.onSize numBuckets).Passed
    cases load : place.load <;> simp_all [LoadTest.onSize, LoadTest.Passed]
  · rintro result after ⟨same, clear, told⟩
    refine conducts_atomic ⟨same, clear⟩ fun _ => ?_
    have outer : (after.next (.unlockBucket (config.bucketIndex h1 mask)) ()).held = [.shared] := by
      simp only [Standing.next, same]
      rfl
    refine conducts_atomic outer fun _ => ⟨⟨?_, rfl, clear⟩, told⟩
    simp only [Standing.next, same]
    rfl

theorem conducts_rehash_loop {post : Unit → Standing → Prop} {size : Nat}
    (held : place.held = [.exclusive]) (duty : place.duty = .clear) (read : place.size = some size)
    (fuel many : Nat) (grows : size < 2 ^ many) (large : 64 ≤ fuel + many)
    (last : fuel = 0 → place.doomed = true)
    (load : (∃ wanted, place.call = some (.resize wanted)) ∨ place.load.Grows size (2 ^ many))
    (grown : ∀ newActual doomed, post () { place with
      duty := .clear, load := place.load.onGrowth, size := some newActual, doomed := doomed }) :
    Conducts (rehashLoop fuel (2 ^ many) : SyncProgram config _) post place := by
  induction fuel generalizing many place with
  | zero => exact conducts_unwind_write held duty (last rfl)
  | succ fuel induction =>
      refine conducts_atomic ⟨held, duty, ⟨many, rfl⟩, size, read, grows, load⟩ fun answer => ?_
      rcases answer with _ | _ | count
      · exact conducts_unwind_write held duty rfl
      · have doubled : 2 ^ many * 2 = 2 ^ (many + 1) := rfl
        change Conducts (rehashLoop fuel (2 ^ many * 2) : SyncProgram config _) post _
        rw [doubled]
        apply induction
        · exact held
        · exact duty
        · exact read
        · omega
        · omega
        · intro ended
          apply decide_eq_true
          rw [doubled]
          exact Nat.pow_lt_pow_right (by decide) (by omega)
        · apply load.imp id
          rintro ⟨seen, heavy, less, enough⟩
          exact ⟨seen, heavy, less, by omega⟩
        · exact grown
      · exact conducts_last ⟨held, rfl⟩ fun _ => grown (2 ^ many) place.doomed

/-- A resize ends outside all locks; an overloaded map has been seen grown. -/
theorem conducts_resize (final : place.Final) (newNumBuckets : Nat)
    (called : (∃ wanted, place.call = some (.resize wanted)) ∨ ∃ seen, place.load = .heavy seen)
    (wanted : ∀ seen, place.load = .heavy seen → newNumBuckets = seen * 2) :
    Conducts (resize newNumBuckets : SyncProgram config _)
      (fun _ after => after.Final ∧ after.call = place.call ∧ after.removed = place.removed ∧
        after.advanced = place.advanced ∧
        (∀ seen, place.load = .heavy seen → after.load = .eased seen)) place := by
  obtain ⟨held, view, duty⟩ := final
  refine conducts_write_inner held duty ?_
  refine conducts_atomic (Or.inr rfl) fun size => ?_
  obtain ⟨numBuckets, mask⟩ := size
  have leaves : ∀ after : Standing, after.held = [.exclusive] → after.view = none →
      after.duty = .clear → after.call = place.call → after.removed = place.removed →
      after.advanced = place.advanced → (∀ seen, place.load = .heavy seen → after.load = .eased seen) →
      Conducts (do atomic (.commit .resize); atomic .writeUnlock : SyncProgram config Unit)
        (fun _ final => final.Final ∧ final.call = place.call ∧ final.removed = place.removed ∧
          final.advanced = place.advanced ∧ (∀ seen, place.load = .heavy seen → final.load = .eased seen)) after := by
    intro after held view duty call removed advanced load
    refine conducts_atomic trivial fun _ => conducts_last ⟨held, duty⟩ fun _ => ?_
    refine ⟨⟨?_, view, duty⟩, call, removed, advanced, load⟩
    simp [Standing.next, held]
  apply conducts_bind
  apply conducts_if
  · intro large
    apply leaves ((place.entered .exclusive).next .readLayout (numBuckets, mask)) rfl view duty
      rfl rfl rfl
    intro seen heavy
    have enough : LoadTest.target seen ≤ numBuckets := by
      rw [wanted seen heavy] at large
      exact large
    change place.load.onSize numBuckets = .eased seen
    simp [LoadTest.onSize, heavy, enough]
  · intro small
    refine conducts_neutral (neutral_clear 4096) fun _ => ?_
    obtain none | ⟨many, rounded⟩ := rounded_size_cases newNumBuckets
    · exact absurd (none ▸ Nat.zero_le _) small
    rw [rounded]
    rw [rounded] at small
    apply conducts_rehash_loop
    · rfl
    · exact duty
    · rfl
    · exact Nat.not_le.mp small
    · omega
    · simp
    · apply called.imp id
      rintro ⟨seen, load⟩
      have asked : LoadTest.target seen = 2 ^ many := by
        rw [LoadTest.target, ← wanted seen load, rounded]
      have less : ¬ LoadTest.target seen ≤ numBuckets := asked ▸ small
      refine ⟨seen, ?_, Nat.not_le.mp less, asked.le⟩
      change place.load.onSize numBuckets = .heavy seen
      simp [LoadTest.onSize, load, less]
    · intro newActual doomed
      apply leaves
      · rfl
      · exact view
      · rfl
      · rfl
      · rfl
      · rfl
      intro seen heavy
      change (place.load.onSize numBuckets).onGrowth = .eased seen
      rw [heavy]
      simp only [LoadTest.onSize]
      split_ifs <;> rfl

/-- The load test passes, or the resize it asks for has been made. -/
theorem conducts_auto_resize (final : place.Final) (load : place.load = .untested)
    (call : ∃ key value, place.Inserts key value) :
    Conducts (autoResize : SyncProgram config _)
      (fun _ after => after.Final ∧ after.call = place.call ∧ after.removed = place.removed ∧
        after.advanced = place.advanced ∧ (config.autoResize → after.load.Passed)) place := by
  have outside := final
  obtain ⟨held, view, duty⟩ := final
  unfold autoResize
  split_ifs with resizes
  · refine conducts_read_inner held ?_
    refine conducts_atomic (Or.inl rfl) fun size => ?_
    obtain ⟨numBuckets, mask⟩ := size
    have sized : place.load.onSize numBuckets = .sized numBuckets := by
      simp [load, LoadTest.onSize]
    refine conducts_atomic (Or.inr ⟨rfl, call, numBuckets, rfl, sized⟩) fun len => ?_
    refine conducts_atomic rfl fun _ => ?_
    have tested : ((place.load.onSize numBuckets).onCount len).onLeave =
        if 3 * (numBuckets * 4) < 4 * len then .heavy numBuckets else .light := by
      simp only [load, LoadTest.onSize, LoadTest.onCount]
      split_ifs <;> rfl
    apply conducts_if
    · intro heavy
      have full : ((place.load.onSize numBuckets).onCount len).onLeave = .heavy numBuckets := by
        rw [tested, if_pos heavy]
      apply conducts_mono
      · apply conducts_resize
        · exact ⟨rfl, view, duty⟩
        · exact Or.inr ⟨numBuckets, full⟩
        · intro seen same
          have found : ((place.load.onSize numBuckets).onCount len).onLeave = .heavy seen := same
          rw [full] at found
          rw [LoadTest.heavy.inj found]
      · rintro _ after ⟨ends, call, removed, advanced, eased⟩
        refine ⟨ends, call, removed, advanced, fun _ => ?_⟩
        rw [eased numBuckets full]
        trivial
    · intro light
      refine ⟨⟨rfl, view, duty⟩, rfl, rfl, rfl, fun _ => ?_⟩
      change ((place.load.onSize numBuckets).onCount len).onLeave.Passed
      rw [tested, if_neg light]
      trivial
  · exact ⟨outside, rfl, rfl, rfl, fun automatic => absurd automatic resizes⟩

theorem conducts_insert {key value : Bytes} {ttl : Word} (final : place.Final)
    (call : place.call = some (.insert key value ttl)) (load : place.load = .untested)
    (unremoved : place.removed = false) (still : place.advanced = false) :
    Conducts (insertInternal key value ttl : SyncProgram config _)
      (fun result after => after.Final ∧ (after.removed = true ↔ result = .removed true)) place := by
  apply conducts_bind
  apply conducts_mono (conducts_auto_resize final load ⟨key, value, ttl, call⟩)
  rintro _ tested ⟨outside, same, removed, advanced, passed⟩
  have calls : tested.call = some (.insert key value ttl) := by rw [same, call]
  refine conducts_atomic ⟨⟨key, value, ttl, calls⟩, advanced.trans still⟩ fun _ => conducts_bind ?_
  have outer : (tested.next .addEpoch ()).Final := outside
  apply conducts_mono
  · apply conducts_with_bucket outer fun _ removed => removed = false
    · exact fun reading held view duty => neutral_drain held view duty drainBatch
    · intro bucketIdx bucket entered inside duty view sameCall sameRemoved stays
      apply conducts_mono
      · apply conducts_insert_body inside duty view
        · rw [sameCall]
          exact calls
        · exact fun automatic => stays (passed automatic)
      · rintro _ after ⟨held, clear, still⟩
        refine ⟨held, clear, ?_⟩
        rw [still, sameRemoved]
        exact removed.trans unremoved
  · rintro _ after ⟨ends, removed⟩
    refine ⟨ends, ?_⟩
    simp [removed]

theorem conducts_read {h1 : Word} {body : Nat → Bucket → SyncProgram config (Option Bytes)}
    (final : place.Final) (unremoved : place.removed = false)
    (inner : ∀ bucketIdx bucket (entered : Standing), entered.InBucket bucketIdx →
      entered.duty = .clear → entered.view = some bucket →
      Neutral entered (body bucketIdx bucket)) :
    Conducts (do let found ← withBucket h1 (pure ()) body; pure (SyncResult.value found))
      (fun result after => after.Final ∧ (after.removed = true ↔ result = .removed true)) place := by
  apply conducts_bind
  apply conducts_mono
  · apply conducts_with_bucket final fun _ removed => removed = false
    · exact fun reading _ _ _ => neutral_pure ()
    · intro bucketIdx bucket entered inside duty view _ removed _
      apply conducts_mono (inner bucketIdx bucket entered inside duty view)
      rintro _ after rfl
      exact ⟨rfl, duty, removed.trans unremoved⟩
  · rintro found after ⟨ends, removed⟩
    refine ⟨ends, ?_⟩
    simp [removed]

theorem conducts_body (call : SyncCall) (final : place.Final) (same : place.call = some call)
    (load : place.load = .untested) (unremoved : place.removed = false)
    (still : place.advanced = false) :
    Conducts (call.body config)
      (fun result after => after.Final ∧ (after.removed = true ↔ result = .removed true)) place := by
  cases call with
  | insert key value ttl => exact conducts_insert final same load unremoved still
  | get key =>
      apply conducts_read final unremoved
      intro bucketIdx bucket entered inside duty view
      apply neutral_bind (neutral_get_found inside duty view key)
      exact fun found => neutral_bind (neutral_atomic trivial fun _ => rfl) fun _ => neutral_pure _
  | peek key =>
      apply conducts_read final unremoved
      intro bucketIdx bucket entered inside duty view
      apply neutral_bind (neutral_peek_slots inside duty view key _ _ fun _ => candidates_state)
      exact fun found => neutral_bind (neutral_atomic trivial fun _ => rfl) fun _ => neutral_pure _
  | remove key =>
      apply conducts_bind
      apply conducts_mono
      · apply conducts_with_bucket final fun found removed => removed = found
        · exact fun reading _ _ _ => neutral_pure ()
        · intro bucketIdx bucket entered inside duty view sameCall removed _
          apply conducts_remove_body inside duty view
          · rw [sameCall, same]
          · exact removed.trans unremoved
      · rintro found after ⟨ends, removed⟩
        refine ⟨ends, ?_⟩
        simp [removed]
  | resize newNumBuckets =>
      apply conducts_bind
      apply conducts_mono
      · apply conducts_resize final
        · exact Or.inl ⟨newNumBuckets, same⟩
        · intro seen heavy
          rw [load] at heavy
          cases heavy
      · rintro _ after ⟨ends, _, removed, _, _⟩
        refine ⟨ends, ?_⟩
        simp [removed, unremoved]
  | setTtl ttl => exact conducts_atomic trivial fun _ => ⟨final, by simp [Standing.next, unremoved]⟩
  | capacity =>
      obtain ⟨held, view, duty⟩ := final
      refine conducts_read_inner held ?_
      refine conducts_atomic (Or.inl rfl) fun size => conducts_atomic rfl fun _ => ?_
      exact ⟨⟨rfl, view, duty⟩, by simp [Standing.next, Standing.entered, unremoved]⟩

end SyncProgram

theorem SyncCall.program_conducts (config : SyncConfig) (call : SyncCall) :
    SyncProgram.Conducts (call.program config) (fun _ => Standing.Idle) (Standing.start call) := by
  have ends : SyncProgram.Conducts (call.body config)
      (fun result after => after.Final ∧ (after.removed = true ↔ result = .removed true))
      (Standing.start call) := SyncProgram.conducts_body call ⟨rfl, rfl, rfl⟩ rfl rfl rfl rfl
  refine SyncProgram.conducts_atomic rfl fun _ => SyncProgram.conducts_bind ?_
  apply SyncProgram.conducts_mono ends
  exact fun result after ends => SyncProgram.conducts_last ends fun _ => ⟨ends.1, rfl, rfl⟩

end PulseMap
