import PulseMap.Sync.Access

/-!
The frame of the calls on a bucket: the read lock, the drain of an insert, the bucket lock,
the critical section, and both releases.
-/

namespace PulseMap

namespace SyncMap

open SyncProgram

variable {config : SyncConfig} {exact : Prop} {thread bucketIdx : Nat} {map : SyncMap}
  {bucket : Bucket} {content : Content} {h1 : Word} {Result : Type}
  {post : Result → SyncMap → Prop}

/-- The thread is inside the read lock and has the index of its bucket, but has not
committed anything. -/
structure Ongoing (config : SyncConfig) (thread : Nat) (h1 : Word) (bucketIdx : Nat) (map : SyncMap) :
    Prop where
  reading : thread ∈ map.readers
  home : config.bucketIndex h1 map.layout.bucketMask = bucketIdx
  slab : map.slabHolder ≠ some thread
  pending : Pending thread map

def Unlocked (thread : Nat) (map : SyncMap) : Prop := ∀ bucket, map.locks bucket ≠ some thread

theorem ongoing_stable : Stable thread (Ongoing config thread h1 bucketIdx) := by
  intro before after rely facts
  exact
    { reading := rely.reading.mpr facts.reading
      home := by
        rw [(rely.layout facts.reading).2]
        exact facts.home
      slab := fun held => facts.slab (rely.slab.mp held)
      pending := pending_stable rely facts.pending }

theorem unlocked_stable : Stable thread (Unlocked thread) :=
  fun _ _ rely facts bucket held => facts bucket ((rely.locks bucket).mp held)

def Draining (config : SyncConfig) (thread : Nat) (h1 : Word) (bucketIdx : Nat) (map : SyncMap) : Prop :=
  Ongoing config thread h1 bucketIdx map ∧ Quiet thread map

theorem draining_stable : Stable thread (Draining config thread h1 bucketIdx) :=
  fun before after rely facts =>
    ⟨ongoing_stable before after rely facts.1, quiet_stable rely facts.2⟩

theorem draining_locks (map : SyncMap) (locks : Nat → Option Nat)
    (facts : Draining config thread h1 bucketIdx map) :
    Draining config thread h1 bucketIdx { map with locks := locks } :=
  ⟨⟨facts.1.reading, facts.1.home, facts.1.slab, facts.1.pending⟩, facts.2⟩

/-! ### The read lock -/

theorem guarantee_read_lock (invariant : Invariant config exact map) (idle : Idle thread map)
    (free : map.writer = none) :
    Guarantee config exact thread map { map with readers := insert thread map.readers } := by
  apply guarantee_locks invariant (insert thread map.readers) map.writer map.locks map.slabHolder
  · intro other different
    simp [different]
  · exact fun other _ => Iff.rfl
  · exact fun other _ _ => Iff.rfl
  · exact fun other _ => Iff.rfl
  · exact fun bucket held => absurd held (idle.locks bucket)
  · exact fun bucket other held => absurd held (idle.locks bucket)
  · exact fun holder writes => absurd writes (by simp [free])
  · exact invariant.moving
  · exact fun held => absurd held idle.slab
  · exact fun _ => Or.inl (Finset.mem_insert_self _ _)

theorem guarantee_read_unlock (invariant : Invariant config exact map)
    (unlocked : Unlocked thread map) (slab : map.slabHolder ≠ some thread)
    (quiet : Quiet thread map) :
    Guarantee config exact thread map { map with readers := map.readers.erase thread } := by
  apply guarantee_locks invariant (map.readers.erase thread) map.writer map.locks map.slabHolder
  · intro other different
    simp [different]
  · exact fun other _ => Iff.rfl
  · exact fun other _ _ => Iff.rfl
  · exact fun other _ => Iff.rfl
  · exact fun bucket held => absurd held (unlocked bucket)
  · exact fun bucket other held => absurd held (unlocked bucket)
  · intro holder writes
    rw [invariant.exclusive holder writes]
    rfl
  · exact invariant.moving
  · exact fun held => absurd held slab
  · intro busy
    rw [quiet] at busy
    simp at busy

theorem safe_read_unlock {Facts : SyncMap → Prop} (stable : Stable thread Facts)
    (keeps : ∀ map readers, Facts map → Facts { map with readers := readers }) (facts : Facts map)
    (inside : Inside thread map) (quiet : Quiet thread map)
    (next : Unit → SyncProgram config Result)
    (continues : ∀ after, Invariant config exact after → Idle thread after → Facts after →
      Safe config exact thread (next ()) post after) :
    Safe config exact thread (atomic .readUnlock >>= next) post map := by
  apply safe_atomic
  intro current response after rely invariant _ performed
  have here := inside_stable rely inside
  have quietHere := quiet_stable rely quiet
  have guarantee := guarantee_read_unlock invariant here.locks here.slab quietHere
  simp only [perform] at performed
  obtain rfl := (Prod.mk.inj (Option.some.inj performed)).2
  refine ⟨guarantee, continues _ guarantee.invariant ?_ (keeps current _ (stable map current rely facts))⟩
  exact
    { reading := Finset.notMem_erase thread current.readers
      writing := no_writer invariant here.reading thread
      locks := here.locks
      slab := here.slab
      call := quietHere }

/-- The read lock of an idle thread; on a poisoned one the thread panics outside it. -/
theorem safe_read_inner {Facts : SyncMap → Prop} (stable : Stable thread Facts)
    (keeps : ∀ map readers, Facts map → Facts { map with readers := readers }) (facts : Facts map)
    (idle : Idle thread map) (next : Unit → SyncProgram config Result)
    (continues : ∀ current, Invariant config exact current → Inside thread current →
      Quiet thread current → Facts current → Safe config exact thread (next ()) post current) :
    Safe config exact thread (readInner >>= next) post map := by
  apply safe_atomic
  intro before response entered rely invariant _ performed
  simp only [perform] at performed
  split_ifs at performed with free
  obtain rfl := (Prod.mk.inj (Option.some.inj performed)).2
  have idleHere := idle_stable rely idle
  have factsHere := keeps before (insert thread before.readers) (stable map before rely facts)
  refine ⟨guarantee_read_lock invariant idleHere free, ?_⟩
  apply safe_atomic
  intro current poisoned after rely invariant _ performed
  obtain ⟨rfl, rfl⟩ := Prod.mk.inj (Option.some.inj performed)
  have reads : thread ∈ current.readers := rely.reading.mpr (Finset.mem_insert_self _ _)
  have quiet : Quiet thread current := quiet_stable rely idleHere.call
  have inside : Inside thread current :=
    ⟨reads, unlocked_stable _ _ rely idleHere.locks, fun held => idleHere.slab (rely.slab.mp held)⟩
  refine ⟨guarantee_none invariant, ?_⟩
  cases spoiled : current.poisoned with
  | false => exact continues current invariant inside quiet (stable _ current rely factsHere)
  | true =>
      have spoils : Stable thread fun map => map.poisoned = true := fun _ _ rely => rely.poisoned
      apply safe_read_unlock spoils (fun _ _ spoiled => spoiled) spoiled inside quiet
      exact fun after _ idle spoiled => ⟨spoiled, idle⟩

theorem safe_read_lock (idle : Idle thread map) (pending : Pending thread map)
    (next : Nat × Nat → SyncProgram config Result)
    (continues : ∀ current, Invariant config exact current → Unlocked thread current →
      (∀ h1, Draining config thread h1 (config.bucketIndex h1 current.layout.bucketMask) current) →
      Safe config exact thread (next (current.layout.numBuckets, current.layout.bucketMask)) post
        current) :
    Safe config exact thread (do
      readInner
      let sizes ← atomic .readLayout
      next sizes) post map := by
  have stable : Stable thread (Pending thread) := fun _ _ rely facts => pending_stable rely facts
  apply safe_read_inner stable (fun _ _ facts => facts) pending idle
  intro entered _ inside quiet pendingHere
  apply safe_read
  · intro current response after performed
    exact (Prod.mk.inj (Option.some.inj performed)).2.symm
  · intro current response rely invariant performed
    obtain ⟨rfl, _⟩ := Prod.mk.inj (Option.some.inj performed)
    have here := inside_stable rely inside
    apply continues current invariant here.locks
    intro h1
    exact ⟨⟨here.reading, rfl, here.slab, pending_stable rely pendingHere⟩, quiet_stable rely quiet⟩

/-! ### Bucket locks -/

theorem guarantee_lock_bucket (invariant : Invariant config exact map) (reads : thread ∈ map.readers)
    (unlocked : Unlocked thread map) (slab : map.slabHolder ≠ some thread)
    (bound : bucketIdx < map.layout.numBuckets) (free : map.locks bucketIdx = none) :
    Guarantee config exact thread map
      { map with locks := Function.update map.locks bucketIdx (some thread) } := by
  apply guarantee_locks invariant map.readers map.writer
      (Function.update map.locks bucketIdx (some thread)) map.slabHolder
  · exact fun other _ => Iff.rfl
  · exact fun other _ => Iff.rfl
  · intro other different place
    by_cases same : place = bucketIdx
    · subst same
      simp [free, different.symm]
    · simp [same]
  · exact fun other _ => Iff.rfl
  · intro place held
    by_cases same : place = bucketIdx
    · exact ⟨reads, by rw [same]; exact bound⟩
    · rw [Function.update_of_ne same] at held
      exact absurd held (unlocked place)
  · have only : ∀ place, Function.update map.locks bucketIdx (some thread) place = some thread →
        place = bucketIdx := by
      intro place held
      by_contra different
      rw [Function.update_of_ne different] at held
      exact unlocked place held
    exact fun place other held otherHeld => (only place held).trans (only other otherHeld).symm
  · exact invariant.exclusive
  · intro place open_
    have different : place ≠ bucketIdx := by
      rintro rfl
      simp at open_
    rw [Function.update_of_ne different] at open_
    exact invariant.moving place open_
  · exact fun held => absurd held slab
  · exact fun _ => Or.inl reads

theorem guarantee_unlock_bucket (invariant : Invariant config exact map)
    (held : map.locks bucketIdx = some thread) (settled : map.transit bucketIdx = none) :
    Guarantee config exact thread map
      { map with locks := Function.update map.locks bucketIdx none } ∧
    Unlocked thread { map with locks := Function.update map.locks bucketIdx none } := by
  have reads := (invariant.locked bucketIdx thread held).1
  have unlocked : ∀ place, Function.update map.locks bucketIdx none place ≠ some thread := by
    intro place still
    by_cases same : place = bucketIdx
    · simp [same] at still
    · rw [Function.update_of_ne same] at still
      exact same (invariant.single place bucketIdx thread still held)
  refine ⟨?_, unlocked⟩
  apply guarantee_locks invariant map.readers map.writer (Function.update map.locks bucketIdx none)
      map.slabHolder
  · exact fun other _ => Iff.rfl
  · exact fun other _ => Iff.rfl
  · intro other different place
    by_cases same : place = bucketIdx
    · subst same
      simp [held, different.symm]
    · simp [same]
  · exact fun other _ => Iff.rfl
  · exact fun place still => absurd still (unlocked place)
  · exact fun place other still => absurd still (unlocked place)
  · exact invariant.exclusive
  · intro place open_
    by_cases same : place = bucketIdx
    · rw [same]
      exact settled
    · rw [Function.update_of_ne same] at open_
      exact invariant.moving place open_
  · exact fun _ => reads
  · exact fun _ => Or.inl reads

section Lock

variable {Facts : SyncMap → Prop} (stable : Stable thread Facts)
  (keeps : ∀ map locks, Facts map → Facts { map with locks := locks })
include stable keeps

theorem safe_lock_bucket (facts : Facts map) (reads : thread ∈ map.readers)
    (unlocked : Unlocked thread map) (slab : map.slabHolder ≠ some thread)
    (bound : bucketIdx < map.layout.numBuckets) (next : Unit → SyncProgram config Result)
    (continues : ∀ bucket content after, Facts after → Invariant config exact after →
      Locked thread bucketIdx bucket content none after →
      Safe config exact thread (next ()) post after) :
    Safe config exact thread (lockBucket bucketIdx >>= next) post map := by
  apply safe_atomic
  intro current response after rely invariant _ performed
  have inside := rely.reading.mpr reads
  have boundHere : bucketIdx < current.layout.numBuckets := by
    rw [(rely.layout reads).1]
    exact bound
  simp only [perform, if_neg (Nat.not_le.mpr boundHere)] at performed
  split_ifs at performed with free
  obtain ⟨rfl, rfl⟩ := Prod.mk.inj (Option.some.inj performed)
  have guarantee := guarantee_lock_bucket invariant inside (unlocked_stable map current rely unlocked)
    (fun held => slab (rely.slab.mp held)) boundHere free
  refine ⟨guarantee, ?_⟩
  exact continues _ _ _ (keeps current _ (stable map current rely facts)) guarantee.invariant
    { reading := inside
      lock := Function.update_self ..
      bucket := rfl
      content := rfl
      transit := invariant.moving bucketIdx free }

theorem safe_unlock_bucket (facts : Facts map)
    (locked : Locked thread bucketIdx bucket content none map)
    (next : Unit → SyncProgram config Result)
    (continues : ∀ after, Facts after → Invariant config exact after → Unlocked thread after →
      Safe config exact thread (next ()) post after) :
    Safe config exact thread (atomic (.unlockBucket bucketIdx) >>= next) post map := by
  apply safe_atomic
  intro current response after rely invariant _ performed
  have here := locked_stable rely locked
  obtain ⟨guarantee, unlocked⟩ := guarantee_unlock_bucket invariant here.lock here.transit
  simp only [perform] at performed
  obtain rfl := (Prod.mk.inj (Option.some.inj performed)).2
  exact ⟨guarantee, continues _ (keeps current _ (stable map current rely facts))
    guarantee.invariant unlocked⟩

end Lock

/-! ### The drain of an insert -/

theorem guarantee_access (invariant : Invariant config exact map)
    (held : map.locks bucketIdx = some thread) (slot : Fin 4) :
    Guarantee config exact thread map (map.setBucket bucketIdx
      { map.layout.buckets bucketIdx with
        metaWord := (map.layout.buckets bucketIdx).metaWord.onAccess slot }) := by
  apply guarantee_bucket invariant held
  · exact ⟨rfl, rfl⟩
  · intro other different
    exact ⟨Function.update_of_ne different _ _, rfl, rfl, fun _ => rfl⟩
  · exact fun _ _ _ _ => rfl
  · exact Layout.on_access invariant.layout bucketIdx slot
  · exact List.prefix_refl _
  · exact fun _ _ => rfl
  · exact invariant.reflects
  · exact
      have recorded := invariant.recorded
      ⟨recorded.legal, recorded.numbered, recorded.pending, recorded.once, recorded.answered⟩
  · exact keeps_content rfl
  · exact Or.inl rfl

/-- The drain takes one bucket lock at a time and ends where it began. -/
theorem safe_drain (budget : Nat) (invariant : Invariant config exact map)
    (facts : Draining config thread h1 bucketIdx map) (unlocked : Unlocked thread map) :
    Safe config exact thread (drain budget)
      (fun _ after => Invariant config exact after ∧ Draining config thread h1 bucketIdx after ∧
        Unlocked thread after) map := by
  induction budget generalizing map with
  | zero => exact ⟨invariant, facts, unlocked⟩
  | succ budget induction =>
      have stable : Stable thread fun map => Ongoing config thread h1 bucketIdx map ∧
          Unlocked thread map := fun before after rely facts =>
        ⟨ongoing_stable before after rely facts.1, unlocked_stable before after rely facts.2⟩
      apply Protocol.safe_bind
      apply Protocol.safe_mono (safe_pop stable (fun map facts => Or.inl facts.1.reading)
        (fun map action facts => ⟨⟨facts.1.reading, facts.1.home, facts.1.slab, facts.1.pending⟩,
          facts.2⟩) ⟨facts.1, unlocked⟩)
      rintro result popped ⟨⟨ongoing, free⟩, invariant, quiet, bounded⟩
      cases result with
      | none => exact ⟨invariant, ⟨ongoing, quiet⟩, free⟩
      | some event =>
          apply safe_lock_bucket draining_stable draining_locks ⟨ongoing, quiet⟩ ongoing.reading free
            ongoing.slab (bounded event rfl)
          intro bucket content locked facts _ holds
          apply safe_atomic
          intro before response after rely invariant _ performed
          have here := locked_stable rely holds
          have draining := draining_stable locked before rely facts
          have guarantee := guarantee_access invariant here.lock (Fin.ofNat 4 event.2.toNat)
          simp only [perform] at performed
          obtain rfl := (Prod.mk.inj (Option.some.inj performed)).2
          refine ⟨guarantee, ?_⟩
          apply safe_unlock_bucket draining_stable draining_locks
          · exact ⟨⟨draining.1.reading, draining.1.home, draining.1.slab, draining.1.pending⟩,
              draining.2⟩
          · exact ⟨here.reading, here.lock, rfl, rfl, here.transit⟩
          · intro after facts invariant unlocked
            exact induction invariant facts unlocked

/-! ### The frame -/

/-- The call has committed one of the events that its answer stands for. -/
def Did (thread : Nat) (events : SyncEvent → Prop) (map : SyncMap) : Prop :=
  ∃ event, events event ∧ Committed thread event map

theorem did_stable {events : SyncEvent → Prop} : Stable thread (Did thread events) := by
  rintro before after rely ⟨event, belongs, committed⟩
  exact ⟨event, belongs, committed_stable rely committed⟩

theorem safe_with_bucket {before : SyncProgram config Unit}
    {body : Nat → Bucket → SyncProgram config Result} (events : Result → SyncEvent → Prop)
    (idle : Idle thread map) (pending : Pending thread map)
    (first : ∀ bucketIdx current, Invariant config exact current →
      Draining config thread h1 bucketIdx current → Unlocked thread current →
      Safe config exact thread before (fun _ after => Invariant config exact after ∧
        Draining config thread h1 bucketIdx after ∧ Unlocked thread after) current)
    (inner : ∀ bucketIdx bucket content current, Invariant config exact current →
      Critical config thread h1 bucketIdx bucket content none current → Pending thread current →
      Safe config exact thread (body bucketIdx bucket) (fun result after =>
        (∃ bucket content, Critical config thread h1 bucketIdx bucket content none after) ∧
          Did thread (events result) after) current) :
    Safe config exact thread (withBucket h1 before body)
      (fun result after => Idle thread after ∧ Did thread (events result) after) map := by
  apply safe_read_lock idle pending
  intro start startInvariant unlocked draining
  apply Protocol.safe_bind
  apply Protocol.safe_mono (first _ start startInvariant (draining h1) unlocked)
  rintro _ drained ⟨invariant, ⟨ongoing, quiet⟩, unlocked⟩
  have bound : config.bucketIndex h1 start.layout.bucketMask < drained.layout.numBuckets := by
    rw [← ongoing.home]
    exact Layout.index_lt invariant.layout h1
  apply safe_lock_bucket draining_stable draining_locks ⟨ongoing, quiet⟩ ongoing.reading unlocked
    ongoing.slab bound
  intro bucket content entered facts _ locked
  apply safe_read
  · intro current response after performed
    exact (Prod.mk.inj (Option.some.inj performed)).2.symm
  · intro current response rely invariant performed
    obtain ⟨rfl, _⟩ := Prod.mk.inj (Option.some.inj performed)
    have here := locked_stable rely locked
    have factsHere := draining_stable entered current rely facts
    rw [here.bucket]
    apply Protocol.safe_bind
    apply Protocol.safe_mono (inner _ bucket content current invariant
      ⟨here, factsHere.1.home, factsHere.1.slab, factsHere.2⟩ factsHere.1.pending)
    rintro result final ⟨⟨lastBucket, lastContent, critical⟩, did⟩
    have stable : Stable thread fun map => thread ∈ map.readers ∧ map.slabHolder ≠ some thread ∧
        Quiet thread map ∧ Did thread (events result) map := by
      rintro before after rely ⟨reads, slab, quiet, did⟩
      exact ⟨rely.reading.mpr reads, fun held => slab (rely.slab.mp held), quiet_stable rely quiet,
        did_stable before after rely did⟩
    apply safe_unlock_bucket stable (fun _ _ facts => facts)
      ⟨critical.locked.reading, critical.slab, critical.quiet, did⟩ critical.locked
    rintro released ⟨reads, slab, quiet, did⟩ _ unlocked
    apply safe_read_unlock did_stable (fun _ _ facts => facts) did ⟨reads, unlocked, slab⟩ quiet
    intro after _ idle did
    exact ⟨idle, did⟩

end SyncMap

end PulseMap
