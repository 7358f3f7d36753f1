import PulseMap.Sync.Guarantee

/-!
What a thread knows between its actions. Each fact survives the steps of the other
threads, by what the thread relies on.
-/

namespace PulseMap

namespace SyncMap

variable {config : SyncConfig} {exact : Prop} {thread : Nat} {before after : SyncMap}

/-- The thread is inside the read lock and holds no other lock. -/
structure Inside (thread : Nat) (map : SyncMap) : Prop where
  reading : thread ∈ map.readers
  locks : ∀ bucket, map.locks bucket ≠ some thread
  slab : map.slabHolder ≠ some thread

/-- The thread holds one bucket, and knows what is in it and which slot is moving. -/
structure Locked (thread bucketIdx : Nat) (bucket : Bucket) (content : Content)
    (moving : Option (Fin 4 × Option Nat)) (map : SyncMap) : Prop where
  reading : thread ∈ map.readers
  lock : map.locks bucketIdx = some thread
  bucket : map.layout.buckets bucketIdx = bucket
  content : map.layout.content bucketIdx = content
  transit : map.transit bucketIdx = moving

def Quiet (thread : Nat) (map : SyncMap) : Prop :=
  (map.accessBuffer.threads thread).call.returned = true

def Committed (thread : Nat) (event : SyncEvent) (map : SyncMap) : Prop :=
  ⟨thread, map.calls thread, event⟩ ∈ map.history

theorem inside_stable (rely : Rely thread before after) (facts : Inside thread before) :
    Inside thread after where
  reading := rely.reading.mpr facts.reading
  locks := fun bucket held => facts.locks bucket ((rely.locks bucket).mp held)
  slab := fun held => facts.slab (rely.slab.mp held)

theorem locked_stable {bucketIdx : Nat} {bucket : Bucket} {content : Content}
    {moving : Option (Fin 4 × Option Nat)} (rely : Rely thread before after)
    (facts : Locked thread bucketIdx bucket content moving before) :
    Locked thread bucketIdx bucket content moving after := by
  obtain ⟨sameBucket, sameContent, sameTransit, _⟩ := rely.bucket bucketIdx facts.lock
  exact
    { reading := rely.reading.mpr facts.reading
      lock := (rely.locks bucketIdx).mpr facts.lock
      bucket := sameBucket.trans facts.bucket
      content := sameContent.trans facts.content
      transit := sameTransit.trans facts.transit }

theorem quiet_stable (rely : Rely thread before after) (facts : Quiet thread before) :
    Quiet thread after := by
  unfold Quiet
  rw [rely.call]
  exact facts

theorem pending_stable (rely : Rely thread before after) (facts : Pending thread before) :
    Pending thread after := by
  unfold Pending
  rw [rely.outcome]
  exact facts

theorem committed_stable {event : SyncEvent} (rely : Rely thread before after)
    (facts : Committed thread event before) : Committed thread event after := by
  unfold Committed
  rw [rely.calls]
  exact rely.history.subset facts

/-! ### Read-only actions -/

variable {Result : Type} {post : Result → SyncMap → Prop} {map : SyncMap}

abbrev Safe (config : SyncConfig) (exact : Prop) (thread : Nat) (program : SyncProgram config Result)
    (post : Result → SyncMap → Prop) (map : SyncMap) : Prop :=
  (syncProtocol config exact).Safe thread program post map

@[simp] theorem safe_done (result : Result) :
    Safe config exact thread (.done result) post map ↔ post result map := Iff.rfl

open SyncProgram

/-- One action: it keeps the promises to the others, and the rest is safe after it. -/
theorem safe_atomic (action : SyncAction) (next : action.Response → SyncProgram config Result)
    (steps : ∀ current response after, Rely thread map current → Invariant config exact current →
      (exact → current.accessBuffer.Unlapped) →
      perform config thread action current = some (response, after) →
      Guarantee config exact thread current after ∧
        Safe config exact thread (next response) post after) :
    Safe config exact thread (atomic action >>= next) post map :=
  fun current rely invariant assumed response after performed =>
    steps current response after rely invariant assumed performed

theorem safe_read (action : SyncAction) (next : action.Response → SyncProgram config Result)
    (reads : ∀ current response after, perform config thread action current = some (response, after) →
      after = current)
    (continues : ∀ current response, Rely thread map current → Invariant config exact current →
      perform config thread action current = some (response, current) →
      Safe config exact thread (next response) post current) :
    Safe config exact thread (atomic action >>= next) post map := by
  apply safe_atomic
  intro current response after rely invariant _ performed
  have same : after = current := reads current response after performed
  subst same
  exact ⟨guarantee_none invariant, continues after response rely invariant performed⟩

end SyncMap

end PulseMap
