import PulseMap.Sync.Conduct
import PulseMap.Sync.Reachable

/-!
The standings of the threads and the shared map agree along every schedule: a thread holds
in the map what its standing says, and the bucket it has read is still as it read it.
-/

namespace PulseMap

/-! ### Actions that change no slot, counter or lock -/

namespace SyncAction

def Quiet : SyncAction → Prop
  | readLock => False
  | readUnlock => False
  | writeLock => False
  | writeUnlock => False
  | poison => False
  | lockBucket _ => False
  | unlockBucket _ => False
  | onAccess _ _ => False
  | updateSlot _ _ _ _ _ => False
  | placeSlot _ _ _ _ _ _ => False
  | clearSlot _ _ _ => False
  | storeStamp _ _ _ => False
  | addCount => False
  | subCount => False
  | storeCount _ => False
  | addEvictionCount => False
  | addEpoch => False
  | rehash _ => False
  | _ => True

end SyncAction

/-- Everything but the slab pool, the access buffer and the records is the same. -/
structure SameState (before after : SyncMap) : Prop where
  readers : after.readers = before.readers
  writer : after.writer = before.writer
  locks : after.locks = before.locks
  buckets : after.layout.buckets = before.layout.buckets
  content : after.layout.content = before.layout.content
  numBuckets : after.layout.numBuckets = before.layout.numBuckets
  epochs : after.layout.epochs = before.layout.epochs
  count : after.count = before.count
  evictionCount : after.evictionCount = before.evictionCount
  currentEpoch : after.currentEpoch = before.currentEpoch

theorem SameState.refl (map : SyncMap) : SameState map map :=
  ⟨rfl, rfl, rfl, rfl, rfl, rfl, rfl, rfl, rfl, rfl⟩

theorem perform_quiet {config : SyncConfig} {thread : Nat} {map after : SyncMap}
    {action : SyncAction} {response : action.Response} (quiet : action.Quiet)
    (performed : map.perform config thread action = some (response, after)) :
    SameState map after := by
  cases action with
  | slabLock =>
      simp only [SyncMap.perform] at performed
      split_ifs at performed
      obtain rfl := (Prod.mk.inj (Option.some.inj performed)).2
      exact ⟨rfl, rfl, rfl, rfl, rfl, rfl, rfl, rfl, rfl, rfl⟩
  | matchesKey guarded data key hr =>
      simp only [SyncMap.perform] at performed
      split_ifs at performed
      obtain rfl := (Prod.mk.inj (Option.some.inj performed)).2
      exact SameState.refl map
  | slabKeyIs idx key =>
      simp only [SyncMap.perform] at performed
      split_ifs at performed
      obtain rfl := (Prod.mk.inj (Option.some.inj performed)).2
      exact SameState.refl map
  | slabValue guarded data =>
      simp only [SyncMap.perform] at performed
      split_ifs at performed
      obtain rfl := (Prod.mk.inj (Option.some.inj performed)).2
      exact SameState.refl map
  | slabFree bucketIdx slot idx =>
      simp only [SyncMap.perform] at performed
      split_ifs at performed
      obtain rfl := (Prod.mk.inj (Option.some.inj performed)).2
      exact ⟨rfl, rfl, rfl, rfl, rfl, rfl, rfl, rfl, rfl, rfl⟩
  | slabAlloc bucketIdx slot key value =>
      simp only [SyncMap.perform] at performed
      split_ifs at performed
      split at performed <;> obtain rfl := (Prod.mk.inj (Option.some.inj performed)).2 <;>
        exact ⟨rfl, rfl, rfl, rfl, rfl, rfl, rfl, rfl, rfl, rfl⟩
  | _ =>
      first
      | exact quiet.elim
      | obtain rfl := (Prod.mk.inj (Option.some.inj performed)).2
        exact ⟨rfl, rfl, rfl, rfl, rfl, rfl, rfl, rfl, rfl, rfl⟩

namespace Standing

variable {config : SyncConfig} {place : Standing} {action : SyncAction}

theorem held_quiet (quiet : action.Quiet) (allows : place.Allows config action)
    (response : action.Response) {lock : Lock} (other : lock ≠ .slab true) :
    lock ∈ (place.next action response).held ↔ lock ∈ place.held := by
  cases action with
  | slabLock => simp [next, other]
  | slabUnlock =>
      obtain ⟨bucketIdx, held⟩ := allows
      simp [next, held, other]
  | _ => first | exact quiet.elim | exact Iff.rfl

theorem duty_quiet (quiet : action.Quiet) (response : action.Response) :
    (place.next action response).duty = place.duty ∨
      ∃ slot fresh epoch, place.duty = .unstamped slot fresh ∧
        (place.next action response).duty = .dated slot fresh epoch := by
  cases action with
  | loadEpoch =>
      cases duty : place.duty with
      | unstamped slot fresh =>
          exact Or.inr ⟨slot, fresh, response, rfl, by simp [next, duty]⟩
      | _ => exact Or.inl (by simp [next, duty])
  | _ => first | exact quiet.elim | exact Or.inl rfl

/-- What a thread can hold together, with what it can have read and owe then. -/
inductive Shaped (self : Standing) : Prop where
  | outside (final : self.Final)
  | reading (held : self.held = [.shared]) (view : self.view = none) (duty : self.duty = .clear)
  | writing (held : self.held = [.exclusive]) (view : self.view = none)
      (duty : self.duty = .clear ∨ ∃ count, self.duty = .rebuilt count)
  | inBucket (bucketIdx : Nat) (reads : self.Reads bucketIdx)
      (duty : ∀ count, self.duty ≠ .rebuilt count)

theorem Shaped.final (shaped : place.Shaped) (outside : place.held = []) : place.Final := by
  cases shaped with
  | outside final => exact final
  | reading held => simp [outside] at held
  | writing held => simp [outside] at held
  | inBucket bucketIdx reads => rcases reads with held | held <;> simp [InBucket, outside] at held

theorem Shaped.of_shared (shaped : place.Shaped) (inside : place.held = [.shared]) :
    place.view = none ∧ place.duty = .clear := by
  cases shaped with
  | outside final => exact final.2
  | reading held view duty => exact ⟨view, duty⟩
  | writing held => simp [inside] at held
  | inBucket bucketIdx reads => rcases reads with held | held <;> simp [InBucket, inside] at held

theorem Shaped.of_exclusive (shaped : place.Shaped) (inside : place.held = [.exclusive]) :
    place.view = none := by
  cases shaped with
  | outside final => exact final.2.1
  | reading held view => exact view
  | writing held view => exact view
  | inBucket bucketIdx reads => rcases reads with held | held <;> simp [InBucket, inside] at held

theorem Shaped.of_rebuilt (shaped : place.Shaped) {count : Nat} (owes : place.duty = .rebuilt count) :
    place.held = [.exclusive] := by
  cases shaped with
  | outside final => simp [final.2.2] at owes
  | reading held view duty => simp [duty] at owes
  | writing held => exact held
  | inBucket bucketIdx reads duty => exact absurd owes (duty count)

theorem Shaped.of_bucket (shaped : place.Shaped) {bucketIdx : Nat} (reads : place.Reads bucketIdx)
    (count : Nat) : place.duty ≠ .rebuilt count := by
  cases shaped with
  | outside final => simp [final.2.2]
  | reading held view duty => simp [duty]
  | writing held => rcases reads with inside | inside <;> simp [InBucket, held] at inside
  | inBucket other reads duty => exact duty count

theorem Shaped.congr {other : Standing} (shaped : place.Shaped) (held : other.held = place.held)
    (view : other.view = place.view) (duty : other.duty = place.duty) : other.Shaped := by
  cases shaped with
  | outside final =>
      exact .outside ⟨held.trans final.1, view.trans final.2.1, duty.trans final.2.2⟩
  | reading inside none clear =>
      exact .reading (held.trans inside) (view.trans none) (duty.trans clear)
  | writing inside none owes =>
      exact .writing (held.trans inside) (view.trans none) (by rw [duty]; exact owes)
  | inBucket bucketIdx reads owes =>
      refine .inBucket bucketIdx ?_ (by rw [duty]; exact owes)
      unfold Reads InBucket at reads ⊢
      rw [held]
      exact reads

theorem shaped_next (shaped : place.Shaped) (allows : place.Allows config action)
    (response : action.Response) : (place.next action response).Shaped := by
  cases action with
  | readLock =>
      have outside : place.held = [] := allows
      obtain ⟨held, view, duty⟩ := shaped.final outside
      exact .reading (by simp [next, held]) view duty
  | readUnlock =>
      have inside : place.held = [.shared] := allows
      obtain ⟨view, duty⟩ := shaped.of_shared inside
      exact .outside ⟨by simp [next, inside], view, duty⟩
  | writeLock =>
      have outside : place.held = [] := allows
      obtain ⟨held, view, duty⟩ := shaped.final outside
      exact .writing (by simp [next, held]) view (Or.inl duty)
  | writeUnlock =>
      obtain ⟨inside, duty⟩ := allows
      exact .outside ⟨by simp [next, inside], shaped.of_exclusive inside, duty⟩
  | poison =>
      obtain ⟨inside, duty, _⟩ := allows
      exact .outside ⟨by simp [next, inside], shaped.of_exclusive inside, duty⟩
  | lockBucket bucketIdx =>
      obtain ⟨inside, view, duty⟩ := allows
      cases response with
      | false => exact shaped
      | true =>
          exact .inBucket bucketIdx (Or.inl (by simp [InBucket, next, inside]))
            (by simp [next, duty])
  | unlockBucket bucketIdx =>
      obtain ⟨inside, duty⟩ := allows
      have held : place.held = [.bucket bucketIdx, .shared] := inside
      exact .reading (by simp [next, held]) rfl duty
  | readBucket bucketIdx =>
      exact .inBucket bucketIdx (Or.inl allows.1) (by simp [next, allows.2])
  | slabLock =>
      obtain ⟨bucketIdx, inside⟩ := allows
      have held : place.held = [.bucket bucketIdx, .shared] := inside
      exact .inBucket bucketIdx (Or.inr (by simp [next, held])) (shaped.of_bucket (Or.inl inside))
  | slabUnlock =>
      obtain ⟨bucketIdx, held⟩ := allows
      exact .inBucket bucketIdx (Or.inl (by simp [InBucket, next, held]))
        (shaped.of_bucket (Or.inr held))
  | updateSlot bucketIdx slot data key value =>
      exact .inBucket bucketIdx (Or.inl allows.1) (by simp [next])
  | placeSlot bucketIdx slot h2 data key value =>
      exact .inBucket bucketIdx (Or.inl allows.1) (by simp [next])
  | clearSlot bucketIdx slot key => exact .inBucket bucketIdx (Or.inl allows.1) (by simp [next])
  | storeStamp bucketIdx slot stamp =>
      refine .inBucket bucketIdx (Or.inl allows.1) ?_
      intro count
      simp only [next]
      split <;> simp
  | addCount =>
      obtain ⟨⟨bucketIdx, inside⟩, _⟩ := allows
      exact .inBucket bucketIdx (Or.inl inside) (by simp [next])
  | subCount =>
      obtain ⟨⟨bucketIdx, inside⟩, _⟩ := allows
      exact .inBucket bucketIdx (Or.inl inside) (by simp [next])
  | storeCount count =>
      exact .writing allows.1 (shaped.of_exclusive allows.1) (Or.inl rfl)
  | addEvictionCount =>
      obtain ⟨⟨bucketIdx, inside⟩, _⟩ := allows
      exact .inBucket bucketIdx (Or.inl inside) (by simp [next])
  | rehash newActual =>
      rcases response with _ | _ | count
      · exact shaped.congr rfl rfl rfl
      · exact shaped.congr rfl rfl rfl
      · exact .writing allows.1 (shaped.of_exclusive allows.1) (Or.inr ⟨count, rfl⟩)
  | loadEpoch =>
      cases duty : place.duty with
      | unstamped slot fresh =>
          cases shaped with
          | outside final => simp [final.2.2] at duty
          | reading held view clear => simp [clear] at duty
          | writing held view owes => rcases owes with owes | ⟨count, owes⟩ <;> simp [owes] at duty
          | inBucket bucketIdx reads => exact .inBucket bucketIdx reads (by simp [next, duty])
      | _ => exact shaped.congr rfl rfl (by simp [next, duty])
  | _ => exact shaped.congr rfl rfl rfl

end Standing

/-! ### Standings and the shared map -/

namespace Layout

theorem insert_all_size {config : SyncConfig} {layout final : Layout} {entries : List EntryData}
    (inserted : layout.insertAll config entries = some (some final)) :
    final.numBuckets = layout.numBuckets := by
  induction entries generalizing layout with
  | nil =>
      obtain rfl := Option.some.inj (Option.some.inj inserted)
      rfl
  | cons entry rest induction =>
      simp only [insertAll] at inserted
      split at inserted
      · cases inserted
      · cases inserted
      · rename_i next placed
        rw [induction inserted]
        simp only [insertEntry] at placed
        split at placed
        · cases placed
        · obtain ⟨pair, _, same⟩ := Option.bind_eq_some_iff.mp placed
          obtain rfl := Option.some.inj (Option.some.inj same)
          rfl

theorem rehash_size {config : SyncConfig} {layout rebuilt : Layout} {newActual count : Nat}
    (rehashed : layout.rehash config newActual = some (some (rebuilt, count))) :
    rebuilt.numBuckets = newActual := by
  simp only [rehash] at rehashed
  obtain ⟨entries, _, rest⟩ := Option.bind_eq_some_iff.mp rehashed
  split_ifs at rest with possible
  obtain ⟨outcome, inserted, same⟩ := Option.bind_eq_some_iff.mp rest
  cases outcome with
  | none => cases same
  | some final =>
      obtain ⟨rfl, _⟩ := Prod.mk.inj (Option.some.inj (Option.some.inj same))
      rw [insert_all_size inserted]
      rfl

end Layout

structure Located (places : Nat → Standing) (map : SyncMap) : Prop where
  shaped : ∀ thread, (places thread).Shaped
  reading : ∀ thread, .shared ∈ (places thread).held ↔ thread ∈ map.readers
  writing : ∀ thread, .exclusive ∈ (places thread).held ↔ map.writer = some thread
  inside : ∀ thread bucketIdx, .bucket bucketIdx ∈ (places thread).held ↔
    map.locks bucketIdx = some thread
  view : ∀ thread bucketIdx bucket, map.locks bucketIdx = some thread →
    (places thread).view = some bucket → map.layout.buckets bucketIdx = bucket
  size : ∀ thread size, thread ∈ map.readers ∨ map.writer = some thread →
    (places thread).size = some size → map.layout.numBuckets = size

namespace Located

variable {places : Nat → Standing} {map : SyncMap} {thread : Nat}

theorem locks (located : Located places map) {bucketIdx : Nat}
    (inside : (places thread).InBucket bucketIdx) : map.locks bucketIdx = some thread := by
  rw [← located.inside thread bucketIdx]
  rw [show (places thread).held = [.bucket bucketIdx, .shared] from inside]
  simp

theorem writes (located : Located places map) (held : (places thread).held = [.exclusive]) :
    map.writer = some thread := by
  rw [← located.writing thread, held]
  simp

theorem unlocked (located : Located places map) {bucketIdx : Nat}
    (absent : .bucket bucketIdx ∉ (places thread).held) : map.locks bucketIdx ≠ some thread := by
  rw [ne_eq, ← located.inside thread bucketIdx]
  exact absent

theorem reads (located : Located places map) {bucketIdx : Nat}
    (holds : map.locks bucketIdx = some thread) : thread ∈ map.readers := by
  have member := (located.inside thread bucketIdx).mpr holds
  rw [← located.reading thread]
  cases located.shaped thread with
  | outside final => simp [final.1] at member
  | reading held => simp [held] at member
  | writing held => simp [held] at member
  | inBucket other reads => rcases reads with held | held <;> simp_all [Standing.InBucket]

theorem still (located : Located places map) (none : map.readers = ∅) (bucketIdx : Nat) :
    map.locks bucketIdx = Option.none := by
  cases holds : map.locks bucketIdx with
  | none => rfl
  | some other =>
      have reads := located.reads holds
      rw [none] at reads
      simp at reads

end Located

section Step

variable {config : SyncConfig} {places : Nat → Standing} {map after : SyncMap} {thread : Nat}
  {action : SyncAction} {response : action.Response} {place : Standing}

/-- A step leaves the others what they hold, and changes neither their buckets nor the size
they have read. -/
structure Spares (thread : Nat) (map after : SyncMap) : Prop where
  readers : ∀ other, other ≠ thread → (other ∈ after.readers ↔ other ∈ map.readers)
  writer : ∀ other, other ≠ thread → (after.writer = some other ↔ map.writer = some other)
  locks : ∀ other, other ≠ thread →
    ∀ bucketIdx, after.locks bucketIdx = some other ↔ map.locks bucketIdx = some other
  buckets : ∀ other, other ≠ thread → ∀ bucketIdx, map.locks bucketIdx = some other →
    after.layout.buckets bucketIdx = map.layout.buckets bucketIdx
  size : ∀ other, other ≠ thread → other ∈ map.readers ∨ map.writer = some other →
    after.layout.numBuckets = map.layout.numBuckets

theorem spares_still (readers : after.readers = map.readers) (writer : after.writer = map.writer)
    (locks : after.locks = map.locks) (numBuckets : after.layout.numBuckets = map.layout.numBuckets)
    (buckets : ∀ other, other ≠ thread → ∀ bucketIdx, map.locks bucketIdx = some other →
      after.layout.buckets bucketIdx = map.layout.buckets bucketIdx) : Spares thread map after :=
  ⟨fun _ _ => by rw [readers], fun _ _ => by rw [writer], fun _ _ _ => by rw [locks], buckets,
    fun _ _ _ => numBuckets⟩

theorem spares_write (located : Located places map) {bucketIdx : Nat} {written : Bucket}
    (inside : (places thread).InBucket bucketIdx) (readers : after.readers = map.readers)
    (writer : after.writer = map.writer) (locks : after.locks = map.locks)
    (numBuckets : after.layout.numBuckets = map.layout.numBuckets)
    (buckets : after.layout.buckets = Function.update map.layout.buckets bucketIdx written) :
    Spares thread map after := by
  apply spares_still readers writer locks numBuckets
  intro holder different other holds
  rw [buckets]
  apply Function.update_of_ne
  rintro rfl
  rw [located.locks inside] at holds
  exact different (Option.some.inj holds).symm

theorem spares_act (located : Located places map)
    (exclusive : ∀ writer, map.writer = some writer → map.readers = ∅)
    (allows : (places thread).Allows config action)
    (performed : map.perform config thread action = some (response, after)) :
    Spares thread map after := by
  cases action with
  | readLock =>
      simp only [SyncMap.perform] at performed
      split_ifs at performed
      obtain rfl := (Prod.mk.inj (Option.some.inj performed)).2
      exact ⟨by simp +contextual, fun _ _ => Iff.rfl, fun _ _ _ => Iff.rfl, fun _ _ _ _ => rfl,
        fun _ _ _ => rfl⟩
  | readUnlock =>
      obtain rfl := (Prod.mk.inj (Option.some.inj performed)).2
      exact ⟨by simp +contextual, fun _ _ => Iff.rfl, fun _ _ _ => Iff.rfl, fun _ _ _ _ => rfl,
        fun _ _ _ => rfl⟩
  | writeLock =>
      simp only [SyncMap.perform] at performed
      split_ifs at performed with free
      obtain rfl := (Prod.mk.inj (Option.some.inj performed)).2
      refine ⟨fun _ _ => Iff.rfl, ?_, fun _ _ _ => Iff.rfl, fun _ _ _ _ => rfl, fun _ _ _ => rfl⟩
      intro other different
      simp [free.1, Ne.symm different]
  | writeUnlock =>
      obtain rfl := (Prod.mk.inj (Option.some.inj performed)).2
      refine ⟨fun _ _ => Iff.rfl, ?_, fun _ _ _ => Iff.rfl, fun _ _ _ _ => rfl, fun _ _ _ => rfl⟩
      intro other different
      simp [located.writes allows.1, Ne.symm different]
  | poison =>
      obtain rfl := (Prod.mk.inj (Option.some.inj performed)).2
      refine ⟨fun _ _ => Iff.rfl, ?_, fun _ _ _ => Iff.rfl, fun _ _ _ _ => rfl, fun _ _ _ => rfl⟩
      intro other different
      simp [located.writes allows.1, Ne.symm different]
  | lockBucket bucketIdx =>
      simp only [SyncMap.perform] at performed
      split_ifs at performed with outside free
      · obtain rfl := (Prod.mk.inj (Option.some.inj performed)).2
        exact spares_still rfl rfl rfl rfl fun _ _ _ _ => rfl
      · obtain rfl := (Prod.mk.inj (Option.some.inj performed)).2
        refine ⟨fun _ _ => Iff.rfl, fun _ _ => Iff.rfl, ?_, fun _ _ _ _ => rfl, fun _ _ _ => rfl⟩
        intro other different place
        by_cases same : place = bucketIdx
        · subst same
          simp [free, Ne.symm different]
        · simp [same]
  | unlockBucket bucketIdx =>
      obtain rfl := (Prod.mk.inj (Option.some.inj performed)).2
      refine ⟨fun _ _ => Iff.rfl, fun _ _ => Iff.rfl, ?_, fun _ _ _ _ => rfl, fun _ _ _ => rfl⟩
      intro other different place
      by_cases same : place = bucketIdx
      · subst same
        simp [located.locks allows.1, Ne.symm different]
      · simp [same]
  | onAccess bucketIdx slot =>
      obtain rfl := (Prod.mk.inj (Option.some.inj performed)).2
      exact spares_write located allows.1 rfl rfl rfl rfl rfl
  | updateSlot bucketIdx slot data key value =>
      obtain rfl := (Prod.mk.inj (Option.some.inj performed)).2
      exact spares_write located allows.1 rfl rfl rfl rfl rfl
  | placeSlot bucketIdx slot h2 data key value =>
      obtain rfl := (Prod.mk.inj (Option.some.inj performed)).2
      exact spares_write located allows.1 rfl rfl rfl rfl rfl
  | clearSlot bucketIdx slot key =>
      obtain rfl := (Prod.mk.inj (Option.some.inj performed)).2
      exact spares_write located allows.1 rfl rfl rfl rfl rfl
  | rehash newActual =>
      have writing := located.writes allows.1
      have noReaders := exclusive thread writing
      simp only [SyncMap.perform] at performed
      split at performed <;> obtain rfl := (Prod.mk.inj (Option.some.inj performed)).2
      · exact spares_still rfl rfl rfl rfl fun _ _ _ _ => rfl
      · exact spares_still rfl rfl rfl rfl fun _ _ _ _ => rfl
      · -- The writer is alone: no other thread holds anything.
        refine ⟨fun _ _ => Iff.rfl, fun _ _ => Iff.rfl, ?_, ?_, ?_⟩
        · intro other _ bucketIdx
          simp [located.still noReaders bucketIdx]
        · intro other _ bucketIdx holds
          rw [located.still noReaders bucketIdx] at holds
          cases holds
        · intro other different holds
          rw [noReaders, writing] at holds
          simp [Ne.symm different] at holds
  | storeStamp bucketIdx slot stamp =>
      obtain rfl := (Prod.mk.inj (Option.some.inj performed)).2
      exact spares_still rfl rfl rfl rfl fun _ _ _ _ => rfl
  | addCount =>
      obtain rfl := (Prod.mk.inj (Option.some.inj performed)).2
      exact spares_still rfl rfl rfl rfl fun _ _ _ _ => rfl
  | subCount =>
      obtain rfl := (Prod.mk.inj (Option.some.inj performed)).2
      exact spares_still rfl rfl rfl rfl fun _ _ _ _ => rfl
  | storeCount count =>
      obtain rfl := (Prod.mk.inj (Option.some.inj performed)).2
      exact spares_still rfl rfl rfl rfl fun _ _ _ _ => rfl
  | addEvictionCount =>
      obtain rfl := (Prod.mk.inj (Option.some.inj performed)).2
      exact spares_still rfl rfl rfl rfl fun _ _ _ _ => rfl
  | addEpoch =>
      obtain rfl := (Prod.mk.inj (Option.some.inj performed)).2
      exact spares_still rfl rfl rfl rfl fun _ _ _ _ => rfl
  | _ =>
      have same := perform_quiet (by trivial) performed
      exact spares_still same.readers same.writer same.locks same.numBuckets
        fun _ _ _ _ => by rw [same.buckets]

theorem located_step (located : Located places map) (spares : Spares thread map after)
    (shaped : place.Shaped) (reading : .shared ∈ place.held ↔ thread ∈ after.readers)
    (writing : .exclusive ∈ place.held ↔ after.writer = some thread)
    (inside : ∀ bucketIdx, .bucket bucketIdx ∈ place.held ↔ after.locks bucketIdx = some thread)
    (view : ∀ bucketIdx bucket, after.locks bucketIdx = some thread → place.view = some bucket →
      after.layout.buckets bucketIdx = bucket)
    (size : ∀ size, thread ∈ after.readers ∨ after.writer = some thread →
      place.size = some size → after.layout.numBuckets = size) :
    Located (Function.update places thread place) after where
  shaped := by
    intro other
    by_cases same : other = thread
    · subst same
      simpa using shaped
    · simpa [same] using located.shaped other
  reading := by
    intro other
    by_cases same : other = thread
    · subst same
      simpa using reading
    · simpa [same, spares.readers other same] using located.reading other
  writing := by
    intro other
    by_cases same : other = thread
    · subst same
      simpa using writing
    · simpa [same, spares.writer other same] using located.writing other
  inside := by
    intro other bucketIdx
    by_cases same : other = thread
    · subst same
      simpa using inside bucketIdx
    · simpa [same, spares.locks other same] using located.inside other bucketIdx
  view := by
    intro other bucketIdx bucket holds seen
    by_cases same : other = thread
    · subst same
      rw [Function.update_self] at seen
      exact view bucketIdx bucket holds seen
    · rw [Function.update_of_ne same] at seen
      have held := (spares.locks other same bucketIdx).mp holds
      rw [spares.buckets other same bucketIdx held]
      exact located.view other bucketIdx bucket held seen
  size := by
    intro other number holds read
    by_cases same : other = thread
    · subst same
      rw [Function.update_self] at read
      exact size number holds read
    · rw [Function.update_of_ne same] at read
      have held : other ∈ map.readers ∨ map.writer = some other :=
        holds.imp (spares.readers other same).mp (spares.writer other same).mp
      rw [spares.size other same held]
      exact located.size other number held read

theorem located_still (located : Located places map) (spares : Spares thread map after)
    (readers : after.readers = map.readers) (writer : after.writer = map.writer)
    (locks : after.locks = map.locks) (shaped : place.Shaped)
    (held : ∀ lock, lock ≠ .slab true → (lock ∈ place.held ↔ lock ∈ (places thread).held))
    (view : ∀ bucketIdx bucket, map.locks bucketIdx = some thread → place.view = some bucket →
      after.layout.buckets bucketIdx = bucket)
    (size : ∀ size, thread ∈ map.readers ∨ map.writer = some thread →
      place.size = some size → after.layout.numBuckets = size) :
    Located (Function.update places thread place) after := by
  apply located_step located spares shaped
  · rw [held .shared (by simp), readers]
    exact located.reading thread
  · rw [held .exclusive (by simp), writer]
    exact located.writing thread
  · intro bucketIdx
    rw [held (.bucket bucketIdx) (by simp), locks]
    exact located.inside thread bucketIdx
  · rw [locks]
    exact view
  · rw [readers, writer]
    exact size

theorem located_aside (located : Located places map) (spares : Spares thread map after)
    (readers : after.readers = map.readers) (writer : after.writer = map.writer)
    (locks : after.locks = map.locks) (buckets : after.layout.buckets = map.layout.buckets)
    (numBuckets : after.layout.numBuckets = map.layout.numBuckets) (shaped : place.Shaped)
    (held : place.held = (places thread).held) (view : place.view = (places thread).view)
    (size : place.size = (places thread).size) :
    Located (Function.update places thread place) after := by
  apply located_still located spares readers writer locks shaped
  · exact fun lock _ => by rw [held]
  · intro bucketIdx bucket holds seen
    rw [view] at seen
    rw [buckets]
    exact located.view thread bucketIdx bucket holds seen
  · intro number holds read
    rw [size] at read
    rw [numBuckets]
    exact located.size thread number holds read

theorem located_write (located : Located places map) (spares : Spares thread map after)
    (readers : after.readers = map.readers) (writer : after.writer = map.writer)
    (locks : after.locks = map.locks) (numBuckets : after.layout.numBuckets = map.layout.numBuckets)
    (shaped : place.Shaped) (held : place.held = (places thread).held) (view : place.view = none)
    (size : place.size = (places thread).size) :
    Located (Function.update places thread place) after := by
  apply located_still located spares readers writer locks shaped
  · exact fun lock _ => by rw [held]
  · intro other bucket _ seen
    rw [view] at seen
    cases seen
  · intro number holds read
    rw [size] at read
    rw [numBuckets]
    exact located.size thread number holds read

theorem located_quiet (located : Located places map) (spares : Spares thread map after)
    (quiet : action.Quiet) (allows : (places thread).Allows config action)
    (performed : map.perform config thread action = some (response, after)) :
    Located (Function.update places thread ((places thread).next action response)) after := by
  have same := perform_quiet quiet performed
  apply located_still located spares same.readers same.writer same.locks
    (Standing.shaped_next (located.shaped thread) allows response)
    (fun lock other => Standing.held_quiet quiet allows response other)
  · intro bucketIdx bucket holds seen
    rw [same.buckets]
    by_cases reads : ∃ target, action = .readBucket target
    · obtain ⟨target, rfl⟩ := reads
      have here : bucketIdx = target := by
        have member := (located.inside thread bucketIdx).mpr holds
        rw [show (places thread).held = [.bucket target, .shared] from allows.1] at member
        simpa using member
      rw [here]
      obtain rfl := (Prod.mk.inj (Option.some.inj performed)).1
      exact Option.some.inj seen
    · apply located.view thread bucketIdx bucket holds
      cases action with
      | readBucket target => exact absurd ⟨target, rfl⟩ reads
      | _ => first | exact quiet.elim | exact seen
  · intro number holds read
    rw [same.numBuckets]
    by_cases sizes : action = .readLayout
    · subst sizes
      obtain rfl := (Prod.mk.inj (Option.some.inj performed)).1
      exact Option.some.inj read
    · apply located.size thread number holds
      cases action with
      | readLayout => exact absurd rfl sizes
      | _ => first | exact quiet.elim | exact read

theorem located_act (located : Located places map)
    (exclusive : ∀ writer, map.writer = some writer → map.readers = ∅)
    (allows : (places thread).Allows config action)
    (performed : map.perform config thread action = some (response, after)) :
    Located (Function.update places thread ((places thread).next action response)) after := by
  have shaped := Standing.shaped_next (located.shaped thread) allows response
  have spares := spares_act located exclusive allows performed
  cases action with
  | readLock =>
      simp only [SyncMap.perform] at performed
      split_ifs at performed with free
      obtain rfl := (Prod.mk.inj (Option.some.inj performed)).2
      have outside : (places thread).held = [] := allows
      apply located_step located spares shaped
      · simp [Standing.next]
      · simpa [Standing.next, outside] using located.writing thread
      · simpa [Standing.next, outside] using located.inside thread
      · exact fun bucketIdx bucket holds =>
          absurd holds (located.unlocked (by rw [outside]; simp))
      · exact fun number _ read => by cases read
  | readUnlock =>
      obtain rfl := (Prod.mk.inj (Option.some.inj performed)).2
      have inside : (places thread).held = [.shared] := allows
      have notWriting : map.writer ≠ some thread := by
        rw [ne_eq, ← located.writing thread, inside]
        simp
      apply located_step located spares shaped
      · simp [Standing.next, inside]
      · simpa [Standing.next, inside] using notWriting
      · simpa [Standing.next, inside] using located.inside thread
      · exact fun bucketIdx bucket holds => absurd holds (located.unlocked (by rw [inside]; simp))
      · intro number holds
        exact absurd (holds.resolve_left (by simp)) notWriting
  | writeLock =>
      simp only [SyncMap.perform] at performed
      split_ifs at performed with free
      obtain rfl := (Prod.mk.inj (Option.some.inj performed)).2
      have outside : (places thread).held = [] := allows
      apply located_step located spares shaped
      · simpa [Standing.next, outside] using located.reading thread
      · simp [Standing.next]
      · simpa [Standing.next, outside] using located.inside thread
      · exact fun bucketIdx bucket holds =>
          absurd holds (located.unlocked (by rw [outside]; simp))
      · exact fun number _ read => by cases read
  | writeUnlock =>
      obtain rfl := (Prod.mk.inj (Option.some.inj performed)).2
      obtain ⟨inside, _⟩ := allows
      have notReading : thread ∉ map.readers := by
        rw [← located.reading thread, inside]
        simp
      apply located_step located spares shaped
      · simpa [Standing.next, inside] using notReading
      · simp [Standing.next, inside]
      · simpa [Standing.next, inside] using located.inside thread
      · exact fun bucketIdx bucket holds => absurd holds (located.unlocked (by rw [inside]; simp))
      · intro number holds
        exact absurd (holds.resolve_right (by simp)) notReading
  | poison =>
      obtain rfl := (Prod.mk.inj (Option.some.inj performed)).2
      obtain ⟨inside, _⟩ := allows
      have notReading : thread ∉ map.readers := by
        rw [← located.reading thread, inside]
        simp
      apply located_step located spares shaped
      · simpa [Standing.next, inside] using notReading
      · simp [Standing.next, inside]
      · simpa [Standing.next, inside] using located.inside thread
      · exact fun bucketIdx bucket holds => absurd holds (located.unlocked (by rw [inside]; simp))
      · intro number holds
        exact absurd (holds.resolve_right (by simp)) notReading
  | lockBucket bucketIdx =>
      simp only [SyncMap.perform] at performed
      split_ifs at performed with outside free
      · obtain ⟨rfl, rfl⟩ := Prod.mk.inj (Option.some.inj performed)
        have same : (places thread).next (.lockBucket bucketIdx) false = places thread := rfl
        rw [same, Function.update_eq_self]
        exact located
      · obtain ⟨rfl, rfl⟩ := Prod.mk.inj (Option.some.inj performed)
        obtain ⟨inside, view, _⟩ := allows
        apply located_step located spares shaped
        · simpa [Standing.next, inside] using located.reading thread
        · simpa [Standing.next, inside] using located.writing thread
        · intro other
          by_cases same : other = bucketIdx
          · subst same
            simp [Standing.next]
          · simpa [Standing.next, inside, same] using located.inside thread other
        · intro other bucket _ seen
          have unseen : (places thread).view = some bucket := seen
          rw [view] at unseen
          cases unseen
        · exact fun number holds read => located.size thread number holds read
  | unlockBucket bucketIdx =>
      obtain rfl := (Prod.mk.inj (Option.some.inj performed)).2
      obtain ⟨inside, _⟩ := allows
      have held : (places thread).held = [.bucket bucketIdx, .shared] := inside
      apply located_step located spares shaped
      · simpa [Standing.next, held] using located.reading thread
      · simpa [Standing.next, held] using located.writing thread
      · intro other
        by_cases same : other = bucketIdx
        · subst same
          simp [Standing.next, held]
        · simpa [Standing.next, held, same] using located.inside thread other
      · intro other bucket _ seen
        cases seen
      · exact fun number holds read => located.size thread number holds read
  | onAccess bucketIdx slot =>
      obtain rfl := (Prod.mk.inj (Option.some.inj performed)).2
      exact located_write located spares rfl rfl rfl rfl shaped rfl allows.2 rfl
  | updateSlot bucketIdx slot data key value =>
      obtain rfl := (Prod.mk.inj (Option.some.inj performed)).2
      exact located_write located spares rfl rfl rfl rfl shaped rfl rfl rfl
  | placeSlot bucketIdx slot h2 data key value =>
      obtain rfl := (Prod.mk.inj (Option.some.inj performed)).2
      exact located_write located spares rfl rfl rfl rfl shaped rfl rfl rfl
  | clearSlot bucketIdx slot key =>
      obtain rfl := (Prod.mk.inj (Option.some.inj performed)).2
      exact located_write located spares rfl rfl rfl rfl shaped rfl rfl rfl
  | rehash newActual =>
      have inside : (places thread).held = [.exclusive] := allows.1
      have writing := located.writes inside
      have noReaders := exclusive thread writing
      simp only [SyncMap.perform] at performed
      split at performed
      · obtain ⟨rfl, rfl⟩ := Prod.mk.inj (Option.some.inj performed)
        exact located_aside located spares rfl rfl rfl rfl rfl shaped rfl rfl rfl
      · obtain ⟨rfl, rfl⟩ := Prod.mk.inj (Option.some.inj performed)
        exact located_aside located spares rfl rfl rfl rfl rfl shaped rfl rfl rfl
      · rename_i rebuilt count rehashed
        obtain ⟨rfl, rfl⟩ := Prod.mk.inj (Option.some.inj performed)
        apply located_step located spares shaped
        · simp [Standing.next, inside, noReaders]
        · simp [Standing.next, inside, writing]
        · simp [Standing.next, inside]
        · intro bucketIdx bucket holds
          cases holds
        · intro number _ read
          rw [Layout.rehash_size rehashed]
          exact Option.some.inj read
  | storeStamp bucketIdx slot stamp =>
      obtain rfl := (Prod.mk.inj (Option.some.inj performed)).2
      exact located_aside located spares rfl rfl rfl rfl rfl shaped rfl rfl rfl
  | addCount =>
      obtain rfl := (Prod.mk.inj (Option.some.inj performed)).2
      exact located_aside located spares rfl rfl rfl rfl rfl shaped rfl rfl rfl
  | subCount =>
      obtain rfl := (Prod.mk.inj (Option.some.inj performed)).2
      exact located_aside located spares rfl rfl rfl rfl rfl shaped rfl rfl rfl
  | storeCount count =>
      obtain rfl := (Prod.mk.inj (Option.some.inj performed)).2
      exact located_aside located spares rfl rfl rfl rfl rfl shaped rfl rfl rfl
  | addEvictionCount =>
      obtain rfl := (Prod.mk.inj (Option.some.inj performed)).2
      exact located_aside located spares rfl rfl rfl rfl rfl shaped rfl rfl rfl
  | addEpoch =>
      obtain rfl := (Prod.mk.inj (Option.some.inj performed)).2
      exact located_aside located spares rfl rfl rfl rfl rfl shaped rfl rfl rfl
  | _ => exact located_quiet located spares trivial allows performed

theorem located_start (located : Located places map) (idle : (places thread).Idle)
    (call : SyncCall) : Located (Function.update places thread (.start call)) map := by
  obtain ⟨⟨held, view, duty⟩, _⟩ := idle
  apply located_still located (spares_still rfl rfl rfl rfl fun _ _ _ _ => rfl) rfl rfl rfl
    (.outside ⟨rfl, rfl, rfl⟩)
  · exact fun lock _ => by rw [held]; rfl
  · exact fun _ _ _ seen => by cases seen
  · exact fun _ _ read => by cases read

/-- A rebuild succeeds on its first pass and keeps the stored triples, unless its layout
cannot be allocated. -/
theorem rehash_act {newActual : Nat} {response : (SyncAction.rehash newActual).Response}
    (located : Located places map) (invariant : map.Invariant config False)
    (allows : (places thread).Allows config (.rehash newActual))
    (performed : map.perform config thread (.rehash newActual) = some (response, after)) :
    (response = none ∧ after = map ∧ SyncMap.maxBuckets < newActual) ∨
    ∃ rebuilt, response = some (some map.layout.entries.length) ∧
      after = { map with
        layout := rebuilt, locks := fun _ => none, generation := map.generation + 1 } ∧
      rebuilt.Invariant config Layout.still ∧ rebuilt.numBuckets = newActual ∧
      rebuilt.entries.Perm map.layout.entries ∧ map.layout.numBuckets < newActual ∧
      map.readers = ∅ := by
  obtain ⟨inside, _, ⟨many, rfl⟩, size, read, grows, _⟩ := allows
  have writing := located.writes inside
  have counted := located.size thread size (Or.inr writing) read
  have layoutInvariant := invariant.layout
  rw [SyncMap.alone_transit invariant writing] at layoutInvariant
  obtain ⟨few, _, shape⟩ := layoutInvariant.shape
  have fewer : few ≤ many := by
    rw [← counted, shape] at grows
    exact (Nat.pow_lt_pow_iff_right (by decide)).mp grows |>.le
  simp only [SyncMap.perform] at performed
  rcases Nat.lt_or_ge SyncMap.maxBuckets (2 ^ many) with tooLarge | possible
  · rw [Layout.rehash_oversize config _ tooLarge] at performed
    obtain ⟨rfl, rfl⟩ := Prod.mk.inj (Option.some.inj performed)
    exact Or.inl ⟨rfl, rfl, tooLarge⟩
  have small : many ≤ 56 := (Nat.pow_le_pow_iff_right (by decide)).mp possible
  obtain ⟨rebuilt, rehashed, rebuiltInvariant, actual, same⟩ :=
    Layout.rehash_spec layoutInvariant shape fewer small
  rw [rehashed] at performed
  obtain ⟨rfl, rfl⟩ := Prod.mk.inj (Option.some.inj performed)
  exact Or.inr ⟨rebuilt, rfl, rfl, rebuiltInvariant, actual, same, by rw [counted]; exact grows,
    invariant.exclusive thread writing⟩

end Step

/-! ### Ledgers -/

abbrev SyncEvents (config : SyncConfig) := List (Event (syncMachine config) SyncCall)

/-- An invariant of what happened, of the standings and of the map, kept by every allowed
action. `Assumed` may restrict the states a schedule passes through. -/
structure Ledger (config : SyncConfig) where
  Assumed : SyncMap → Prop
  Balanced : SyncEvents config → (Nat → Standing) → SyncMap → Prop
  begins : ∀ past places map thread call, Located places map → Balanced past places map →
    (places thread).Idle →
    Balanced (past ++ [.called thread call]) (Function.update places thread (.start call)) map
  acts : ∀ past places (map : SyncMap) thread action response after, Located places map →
    map.Invariant config False → after.Invariant config False → Assumed map → Assumed after →
    Balanced past places map → (places thread).Allows config action →
    map.perform config thread action = some (response, after) →
    Balanced (past ++ [.acted thread action response])
      (Function.update places thread ((places thread).next action response)) after

namespace Ledger

variable {config : SyncConfig} (ledger : Ledger config)

def chronicle : Chronicle (standingDiscipline config) (SyncCall.program config) where
  start := Standing.start
  Final := Standing.Idle
  Allowed := fun _ _ => True
  Known := fun map => SyncMap.Invariant config False map ∧ ledger.Assumed map
  Invariant := fun past places map => Located places map ∧ ledger.Balanced past places map
  follows := fun _ call _ => call.program_conducts config
  begins := fun past places map thread call _ _ invariant idle =>
    ⟨located_start invariant.1 idle call,
      ledger.begins past places map thread call invariant.1 invariant.2 idle⟩
  acts := fun past places map thread action response after known invariant allows performed later =>
    ⟨located_act invariant.1 (fun writer writes => known.1.exclusive writer writes) allows performed,
      ledger.acts past places map thread action response after invariant.1 known.1 later.1 known.2
        later.2 invariant.2 allows performed⟩

end Ledger

def syncTrace (config : SyncConfig) (numBuckets : Nat) (moves : SyncMoves) : SyncEvents config :=
  (syncSystem config numBuckets).trace (SyncCall.program config) moves

structure Stands {config : SyncConfig} (ledger : Ledger config) (past : SyncEvents config)
    (system : System (syncMachine config)) (places : Nat → Standing) : Prop where
  conducts : ∀ thread, SyncProgram.Conducts (system.programs thread) (fun _ => Standing.Idle)
    (places thread)
  located : Located places system.shared
  balanced : ledger.Balanced past places system.shared

theorem Located.new (numBuckets : Nat) :
    Located (fun _ => Standing.outside) (SyncMap.new numBuckets) where
  shaped := fun _ => .outside ⟨rfl, rfl, rfl⟩
  reading := by simp [Standing.outside, SyncMap.new]
  writing := by simp [Standing.outside, SyncMap.new]
  inside := by simp [Standing.outside, SyncMap.new]
  view := by simp [SyncMap.new]
  size := by simp [SyncMap.new]

theorem ledger_run {config : SyncConfig} (ledger : Ledger config) {numBuckets : Nat}
    (small : numBuckets ≤ 2 ^ 56) (moves : SyncMoves) (sized : moves.Sized)
    (assumed : ∀ past future, moves = past ++ future →
      ledger.Assumed (syncRun config numBuckets past).shared)
    (start : ledger.Balanced [] (fun _ => Standing.outside) (SyncMap.new numBuckets)) :
    ∃ places, Stands ledger (syncTrace config numBuckets moves)
      (syncRun config numBuckets moves) places := by
  have first : ledger.chronicle.Kept [] (fun _ => Standing.outside)
      (syncSystem config numBuckets) :=
    ⟨fun _ => ⟨⟨rfl, rfl, rfl⟩, rfl, rfl⟩, Located.new numBuckets, start⟩
  have known : ∀ front back, moves = front ++ back →
      SyncMap.Invariant config False (syncRun config numBuckets front).shared ∧
        ledger.Assumed (syncRun config numBuckets front).shared := by
    intro front back split
    have sizedFront : SyncMoves.Sized front := by
      intro thread call member
      exact sized thread call (by rw [split]; exact List.mem_append_left _ member)
    exact ⟨(sync_run_holds config False small front sizedFront False.elim).invariant,
      assumed front back split⟩
  obtain ⟨places, kept⟩ := Chronicle.kept_run first moves known fun _ _ _ => trivial
  exact ⟨places, kept.follows, kept.invariant.1, kept.invariant.2⟩

end PulseMap
