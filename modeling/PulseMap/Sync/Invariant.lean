import PulseMap.Sync.Buffer
import PulseMap.Sync.Calls
import PulseMap.Sync.History

/-!
The invariant of the concurrent map and what each thread relies on. A thread inside the
read lock relies on the layout; under a bucket lock it relies on the bucket, its content
and the slab entries accounted to it; under the write lock it relies on everything the
lock protects. `exact` switches on the part that holds while no buffer call is lapped.
-/

namespace PulseMap

/-! ### The record of the calls -/

namespace ReturnedCall

def Answered (self : ReturnedCall) (history : List HistoryEntry) : Prop :=
  match self.request, self.result with
  | .insert key value _, .done =>
      ∃ victim, ⟨self.thread, self.call, .insert key value victim⟩ ∈ history
  | .get key, .value found => ⟨self.thread, self.call, .read key found⟩ ∈ history
  | .peek key, .value found => ⟨self.thread, self.call, .read key found⟩ ∈ history
  | .remove key, .removed found => ⟨self.thread, self.call, .remove key found⟩ ∈ history
  | .resize _, .done => ⟨self.thread, self.call, .resize⟩ ∈ history
  | .setTtl _, .done => True
  | .capacity, .size _ => True
  | _, _ => False

end ReturnedCall

namespace SyncMap

/-- The current call has not committed its own event yet. -/
def Pending (thread : Nat) (map : SyncMap) : Prop :=
  map.outcome thread = none ∨ map.outcome thread = some .resize

/-- The entries of a history that belong to one call each. -/
def owned (history : List HistoryEntry) : List (Nat × Nat) :=
  (history.filter fun entry => entry.event ≠ .resize).map fun entry => (entry.thread, entry.call)

structure Recorded (map : SyncMap) : Prop where
  legal : LegalHistory map.history
  numbered : ∀ entry ∈ map.history, entry.call ≤ map.calls entry.thread
  pending : ∀ thread, map.Pending thread → (thread, map.calls thread) ∉ owned map.history
  once : (owned map.history).Nodup
  answered : ∀ call ∈ map.returned, call.Answered map.history

/-- What holds of the access buffer while no call is lapped: it is the queue of the
pushes, and everything in it was pushed under the current layout. -/
structure Buffered (map : SyncMap) : Prop where
  ring : map.accessBuffer.Invariant 12
  pushed : map.pushedIn.length = map.accessBuffer.ring.accepted.length
  delivered : map.deliveredIn.length = map.accessBuffer.ring.delivered.length
  current : ∀ position < map.accessBuffer.ring.accepted.length,
    position ∉ map.accessBuffer.ring.released → map.pushedIn[position]? = some map.generation
  matched : ∀ (index position : Nat) (event : Access 64),
    map.accessBuffer.ring.delivered[index]? = some (position, event) →
    ∃ generation, map.deliveredIn[index]? = some generation ∧
      map.pushedIn[position]? = some generation

/-- More buckets were asked for than can be allocated: by a call, or for an overloaded map that
has as many as possible. -/
def Oversized (config : SyncConfig) (map : SyncMap) : Prop :=
  (∃ call ∈ map.started, ∃ newNumBuckets,
    call.request = .resize newNumBuckets ∧ maxBuckets < newNumBuckets) ∨
  config.autoResize = true ∧ map.layout.numBuckets = maxBuckets

structure Invariant (config : SyncConfig) (exact : Prop) (map : SyncMap) : Prop where
  layout : map.layout.Invariant config map.transit
  locked : ∀ bucket thread, map.locks bucket = some thread →
    thread ∈ map.readers ∧ bucket < map.layout.numBuckets
  single : ∀ bucket other thread, map.locks bucket = some thread →
    map.locks other = some thread → bucket = other
  exclusive : ∀ thread, map.writer = some thread → map.readers = ∅
  moving : ∀ bucket, map.locks bucket = none → map.transit bucket = none
  slab : ∀ thread, map.slabHolder = some thread → thread ∈ map.readers
  active : ∀ thread, (map.accessBuffer.threads thread).call.returned = false →
    thread ∈ map.readers ∨ map.writer = some thread
  inRange : map.accessBuffer.InRange map.layout.numBuckets
  reflects : map.layout.Reflects map.history
  recorded : map.Recorded
  poisoned : map.poisoned = true → map.Oversized config
  buffered : exact → map.Buffered

/-- What a thread finds again after steps of the others. -/
structure Rely (thread : Nat) (before after : SyncMap) : Prop where
  reading : thread ∈ after.readers ↔ thread ∈ before.readers
  writing : after.writer = some thread ↔ before.writer = some thread
  locks : ∀ bucket, after.locks bucket = some thread ↔ before.locks bucket = some thread
  slab : after.slabHolder = some thread ↔ before.slabHolder = some thread
  layout : thread ∈ before.readers → after.layout.numBuckets = before.layout.numBuckets ∧
    after.layout.bucketMask = before.layout.bucketMask
  bucket : ∀ bucket, before.locks bucket = some thread →
    after.layout.buckets bucket = before.layout.buckets bucket ∧
    after.layout.content bucket = before.layout.content bucket ∧
    after.transit bucket = before.transit bucket ∧
    ∀ slot : Fin 4, after.layout.epochs (bucket * 4 + slot.val) =
      before.layout.epochs (bucket * 4 + slot.val)
  entries : ∀ bucket slot idx, before.locks bucket = some thread →
    before.layout.own before.transit (bucket, slot) = some idx →
    after.layout.slabPool.get idx = before.layout.slabPool.get idx
  call : (after.accessBuffer.threads thread).call = (before.accessBuffer.threads thread).call
  calls : after.calls thread = before.calls thread
  outcome : after.outcome thread = before.outcome thread
  history : before.history <+: after.history
  poisoned : before.poisoned = true → after.poisoned = true
  started : before.started ⊆ after.started
  grown : before.layout.numBuckets = maxBuckets → after.layout.numBuckets = maxBuckets
  exclusive : before.writer = some thread → after.layout = before.layout ∧
    after.transit = before.transit ∧ after.accessBuffer = before.accessBuffer ∧
    after.count = before.count ∧ after.generation = before.generation

theorem Rely.refl (thread : Nat) (map : SyncMap) : Rely thread map map where
  reading := Iff.rfl
  writing := Iff.rfl
  locks := fun _ => Iff.rfl
  slab := Iff.rfl
  layout := fun _ => ⟨rfl, rfl⟩
  bucket := fun _ _ => ⟨rfl, rfl, rfl, fun _ => rfl⟩
  entries := fun _ _ _ _ _ => rfl
  call := rfl
  calls := rfl
  outcome := rfl
  history := List.prefix_refl _
  poisoned := id
  started := fun _ member => member
  grown := id
  exclusive := fun _ => ⟨rfl, rfl, rfl, rfl, rfl⟩

theorem Rely.own {thread : Nat} {before after : SyncMap} (rely : Rely thread before after)
    {bucket : Nat} (held : before.locks bucket = some thread) (slot : Fin 4) :
    after.layout.own after.transit (bucket, slot) =
      before.layout.own before.transit (bucket, slot) := by
  obtain ⟨buckets, _, transit, _⟩ := rely.bucket bucket held
  simp only [Layout.own, buckets, transit]

theorem Rely.trans {thread : Nat} {first second third : SyncMap} (early : Rely thread first second)
    (late : Rely thread second third) : Rely thread first third where
  reading := late.reading.trans early.reading
  writing := late.writing.trans early.writing
  locks := fun bucket => (late.locks bucket).trans (early.locks bucket)
  slab := late.slab.trans early.slab
  layout := by
    intro reads
    obtain ⟨size, mask⟩ := early.layout reads
    obtain ⟨nextSize, nextMask⟩ := late.layout (early.reading.mpr reads)
    exact ⟨nextSize.trans size, nextMask.trans mask⟩
  bucket := by
    intro bucket held
    obtain ⟨buckets, content, transit, epochs⟩ := early.bucket bucket held
    obtain ⟨nextBuckets, nextContent, nextTransit, nextEpochs⟩ :=
      late.bucket bucket ((early.locks bucket).mpr held)
    exact ⟨nextBuckets.trans buckets, nextContent.trans content, nextTransit.trans transit,
      fun slot => (nextEpochs slot).trans (epochs slot)⟩
  entries := by
    intro bucket slot idx held owned
    have later := late.entries bucket slot idx ((early.locks bucket).mpr held)
      ((early.own held slot).trans owned)
    exact later.trans (early.entries bucket slot idx held owned)
  call := late.call.trans early.call
  calls := late.calls.trans early.calls
  outcome := late.outcome.trans early.outcome
  history := early.history.trans late.history
  poisoned := late.poisoned ∘ early.poisoned
  started := fun _ member => late.started (early.started member)
  grown := late.grown ∘ early.grown
  exclusive := by
    intro writes
    obtain ⟨layout, transit, buffer, count, generation⟩ := early.exclusive writes
    obtain ⟨nextLayout, nextTransit, nextBuffer, nextCount, nextGeneration⟩ :=
      late.exclusive (early.writing.mpr writes)
    exact ⟨nextLayout.trans layout, nextTransit.trans transit, nextBuffer.trans buffer,
      nextCount.trans count, nextGeneration.trans generation⟩

theorem oversized_stable {config : SyncConfig} {thread : Nat} {before after : SyncMap}
    (rely : Rely thread before after) (oversized : before.Oversized config) :
    after.Oversized config := by
  rcases oversized with ⟨call, member, asked⟩ | ⟨automatic, full⟩
  · exact Or.inl ⟨call, rely.started member, asked⟩
  · exact Or.inr ⟨automatic, rely.grown full⟩

/-- How an action may end the binding of a key: the thread holds the bucket of the key, and
it either removes the key or evicts it for another key of the bucket, which was full and
had no slot of lower priority. -/
def Ends (config : SyncConfig) (thread : Nat) (position : Position) (key : Bytes)
    (before after : SyncMap) : Prop :=
  let packed := (before.layout.buckets position.1).metaWord
  before.locks position.1 = some thread ∧
    (after.history = before.history ++ [⟨thread, before.calls thread, .remove key true⟩] ∨
      ∃ name text, name ≠ key ∧
        config.bucketIndex (config.hash name).h1 before.layout.bucketMask = position.1 ∧
        after.history =
          before.history ++ [⟨thread, before.calls thread, .insert name text (some key)⟩] ∧
        ∀ slot, packed.getState slot = .full ∧
          packed.getPriority position.2 ≤ packed.getPriority slot)

def Keeps (config : SyncConfig) (thread : Nat) (before after : SyncMap) : Prop :=
  ∀ (position : Position) key value,
    before.layout.content position.1 position.2 = some (key, value) →
    (∃ (place : Position) (text : Bytes), after.layout.content place.1 place.2 = some (key, text)) ∨
      Ends config thread position key before after

/-- The critical section an event belongs to: the bucket of its key, or the write lock. -/
def Guards (config : SyncConfig) (thread : Nat) (map : SyncMap) : SyncEvent → Prop
  | .insert key _ _ =>
      map.locks (config.bucketIndex (config.hash key).h1 map.layout.bucketMask) = some thread
  | .read key _ =>
      map.locks (config.bucketIndex (config.hash key).h1 map.layout.bucketMask) = some thread
  | .remove key _ =>
      map.locks (config.bucketIndex (config.hash key).h1 map.layout.bucketMask) = some thread
  | .resize => map.writer = some thread

def Commits (config : SyncConfig) (thread : Nat) (before : SyncMap) (history : List HistoryEntry) :
    Prop :=
  history = before.history ∨ ∃ event, Guards config thread before event ∧
    history = before.history ++ [⟨thread, before.calls thread, event⟩]

structure Obeys (config : SyncConfig) (thread : Nat) (before after : SyncMap) : Prop where
  keeps : Keeps config thread before after
  commits : Commits config thread before after.history

theorem keeps_content {config : SyncConfig} {thread : Nat} {before after : SyncMap}
    (same : after.layout.content = before.layout.content) : Keeps config thread before after := by
  intro position key value held
  exact Or.inl ⟨position, value, by rw [same]; exact held⟩

theorem obeys_content {config : SyncConfig} {thread : Nat} {before after : SyncMap}
    (same : after.layout.content = before.layout.content) (still : after.history = before.history) :
    Obeys config thread before after :=
  ⟨keeps_content same, Or.inl still⟩

structure Idle (thread : Nat) (map : SyncMap) : Prop where
  reading : thread ∉ map.readers
  writing : map.writer ≠ some thread
  locks : ∀ bucket, map.locks bucket ≠ some thread
  slab : map.slabHolder ≠ some thread
  call : (map.accessBuffer.threads thread).call.returned = true

theorem idle_stable {thread : Nat} {before after : SyncMap} (rely : Rely thread before after)
    (idle : Idle thread before) : Idle thread after where
  reading := fun reads => idle.reading (rely.reading.mp reads)
  writing := fun writes => idle.writing (rely.writing.mp writes)
  locks := fun bucket held => idle.locks bucket ((rely.locks bucket).mp held)
  slab := fun held => idle.slab (rely.slab.mp held)
  call := by
    rw [rely.call]
    exact idle.call

end SyncMap

/-- The protocol of the map's locks. A thread panics on a poisoned one only, and holds
nothing then. -/
def syncProtocol (config : SyncConfig) (exact : Prop) : Protocol (syncMachine config) where
  Invariant := SyncMap.Invariant config exact
  Rely := SyncMap.Rely
  Obeys := SyncMap.Obeys config
  Assumed := fun map => exact → map.accessBuffer.Unlapped
  Panics := fun thread map => map.poisoned = true ∧ SyncMap.Idle thread map
  refl := SyncMap.Rely.refl
  trans := SyncMap.Rely.trans
  panics := fun rely panics => ⟨rely.poisoned panics.1, SyncMap.idle_stable rely panics.2⟩

end PulseMap
