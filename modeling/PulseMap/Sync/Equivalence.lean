import PulseMap.Raw.Commute
import PulseMap.Raw.Counting
import PulseMap.Raw.Entry
import PulseMap.Sync.Single

/-!
The two maps under one thread. `TypedPulseMap` applies an access at once, `ConcurrentPulseMap`
queues it until the next insert. As long as a drain takes the whole queue, a caller cannot
tell them apart: every call returns the same, and after it both hold the same bindings
and show the same counters.
-/

namespace PulseMap

structure Observation (Key Value : Type) where
  result : TypedResult Value
  len : Nat
  evictionCount : Nat
  currentEpoch : Word
  /-- What `peek` of each key would return now; an outer `none` is a panic. -/
  bindings : Key → Option (Option Value)

variable {Key Value : Type} [PulseKey Key] [PulseValue Value]

namespace TypedPulseMap

variable (wyhash : Bytes → Word)

def observe (self : TypedPulseMap Key Value) (result : TypedResult Value) : Observation Key Value where
  result := result
  len := self.raw.len
  evictionCount := self.raw.evictionCount
  currentEpoch := self.raw.currentEpoch
  bindings := self.peek wyhash

def observations : TypedPulseMap Key Value → List (TypedOp Key Value) →
    Option (List (Observation Key Value))
  | _, [] => some []
  | map, op :: rest => do
      let (result, next) ← op.apply wyhash map
      let later ← observations next rest
      some (next.observe wyhash result :: later)

end TypedPulseMap

namespace TypedOp

def concurrent : TypedOp Key Value → TypedCall Key Value
  | insert key value => .insert key value 0
  | insertTtl key value ttl => .insert key value ttl
  | get key => .get key
  | peek key => .peek key
  | containsKey key => .containsKey key
  | remove key => .remove key
  | setTtl ttl => .setTtl ttl

def read : TypedOp Key Value → SyncResult → TypedResult Value
  | get _, answer => .value answer.found
  | peek _, answer => .value answer.found
  | containsKey _, answer => .contains (answer.found : Option Value).isSome
  | remove _, .removed found => .removed found
  | _, _ => .done

/-- The hits since the last insert, counted on. -/
def countHits (hits : Nat) : TypedOp Key Value → TypedResult Value → Nat
  | insert _ _, _ => 0
  | insertTtl _ _ _, _ => 0
  | get _, .value (some _) => hits + 1
  | _, _ => hits

/-- No two consecutive inserts of the run have more hits between them than one drain takes. -/
def Batched (wyhash : Bytes → Word) :
    Nat → TypedPulseMap Key Value → List (TypedOp Key Value) → Prop
  | _, _, [] => True
  | hits, map, op :: rest =>
      (op.encode.insertion.isSome → hits ≤ SyncProgram.drainBatch) ∧
        ∀ result next, op.apply wyhash map = some (result, next) →
          Batched wyhash (op.countHits hits result) next rest

theorem concurrent_encode (op : TypedOp Key Value) : op.concurrent.encode = op.encode.toSync := by
  cases op <;> rfl

end TypedOp

namespace SyncMap

variable (config : SyncConfig) (thread : Nat)

def observe (self : SyncMap) (result : TypedResult Value) : Observation Key Value where
  result := result
  len := self.count
  evictionCount := self.evictionCount
  currentEpoch := self.currentEpoch
  bindings := fun key =>
    ((TypedCall.peek key : TypedCall Key Value).encode.alone config thread self).map fun answer =>
      answer.1.found

def observations : SyncMap → List (TypedOp Key Value) → Option (List (Observation Key Value))
  | _, [] => some []
  | map, op :: rest => do
      let (answer, next) ← op.concurrent.encode.alone config thread map
      let later ← observations next rest
      some (next.observe config thread (op.read answer) :: later)

end SyncMap

/-! ### The simulation -/

/-- `ConcurrentPulseMap::new`: no automatic growth, and not a shard. -/
def plainConfig (wyhash : Bytes → Word) : SyncConfig := ⟨false, false, wyhash⟩

/-- The concurrent map has queued what the typed map has applied. -/
structure Follows (wyhash : Bytes → Word) (start : Nat) (typed : TypedPulseMap Key Value)
    (content : Nat → Content) (late : LateTable) (map : SyncMap) : Prop where
  invariant : Raw.Invariant wyhash typed.raw content
  timeless : Raw.Timeless typed.raw content
  encoded : Raw.Encoded Key Value content
  reached : SyncMap.Reached (plainConfig wyhash) start map
  mirrors : SyncMap.Mirrors typed.raw.numBuckets late map
  alike : late.settled.Alike (Raw.table typed.raw content)

section Simulation

variable {wyhash : Bytes → Word} {start : Nat} {typed : TypedPulseMap Key Value}
  {content : Nat → Content} {late : LateTable} {map : SyncMap}

theorem Follows.same_home (follows : Follows wyhash start typed content late map) :
    SyncMap.homeAt (plainConfig wyhash) typed.raw.numBuckets = typed.raw.bucketOf wyhash := by
  funext key
  rw [PulseMapRaw.bucketOf, follows.invariant.mask]
  rfl

theorem Follows.same_content (follows : Follows wyhash start typed content late map) :
    map.layout.content = content := by
  funext bucket
  have held := LateTable.settled_held follows.alike bucket
  rw [← follows.mirrors.table] at held
  exact held

theorem Follows.same_count (small : start ≤ SyncMap.maxBuckets)
    (follows : Follows wyhash start typed content late map) : map.count = typed.raw.len := by
  have vacant := SyncMap.reached_vacant small follows.reached follows.mirrors
  obtain ⟨moves, sized, ran⟩ := follows.reached
  have shared : (syncRun (plainConfig wyhash) start moves).shared = map := by rw [ran]
  have counted := SyncMap.counted_run small moves sized (by rw [shared]; exact follows.mirrors.readers)
    (by rw [shared]; exact vacant)
  rw [shared, Layout.entries_length vacant.layout] at counted
  have slots : map.layout.fullSlots = Raw.fullSlots typed.raw := by
    rw [Layout.fullSlots, Raw.fullSlots, follows.mirrors.size]
    apply Finset.sum_congr rfl
    intro bucket _
    rw [Bucket.fullSlots]
    congr 1
    ext slot
    have here := meta_full_iff (vacant.layout.metaAgrees bucket) slot
    have there := meta_full_iff (follows.invariant.metaAgrees bucket) slot
    rw [follows.same_content] at here
    simp only [Finset.mem_filter, Finset.mem_univ, true_and]
    exact here.trans there.symm
  rw [counted, slots, PulseMapRaw.len, Raw.count_full_slots follows.invariant]

theorem found_encoded {op : RawOp} {result : RawResult} {next : PulseMapRaw}
    {after : Nat → Content} (encoded : Raw.Encoded Key Value content)
    (effect : Raw.Effect wyhash typed.raw content op result next after) {text : Bytes}
    (found : result = .value (some text)) : ∃ value : Value, valueBytes value = text := by
  cases effect with
  | updated call held => cases found
  | placed call missing target full => cases found
  | hit held live =>
      cases found
      obtain ⟨_, value, _, same⟩ := encoded _ _ _ _ held
      exact ⟨value, same⟩
  | peeked held live =>
      cases found
      obtain ⟨_, value, _, same⟩ := encoded _ _ _ _ held
      exact ⟨value, same⟩
  | missed call hidden => cases found
  | removed held => cases found
  | unremoved missing => cases found
  | retuned ttl => cases found

theorem read_decode (op : TypedOp Key Value) (home : Bytes → Nat) (h2 : Bytes → Byte)
    (late : LateTable)
    (decodes : ∀ text, (late.apply home h2 op.encode).1 = .value (some text) →
      ∃ value : Value, valueBytes value = text) :
    op.read (late.apply home h2 op.encode).1.toSync = op.decode (late.apply home h2 op.encode).1 := by
  cases op with
  | containsKey key =>
      cases found : (late.table.views (home (keyBytes key))).find (keyBytes key) with
      | none => simp [TypedOp.encode, LateTable.apply, found, TypedOp.read, TypedOp.decode,
          RawResult.toSync, SyncResult.found]
      | some text =>
          obtain ⟨value, rfl⟩ := decodes text (by simp [TypedOp.encode, LateTable.apply, found])
          have known : PulseValue.codec.fromBytes (valueBytes value) = some value :=
            PulseValue.codec.decodes value
          simp [TypedOp.encode, LateTable.apply, found, TypedOp.read, TypedOp.decode,
            RawResult.toSync, SyncResult.found, known]
  | _ => rfl

theorem events_counted (op : TypedOp Key Value) (home : Bytes → Nat) (h2 : Bytes → Byte)
    (late : LateTable)
    (decodes : ∀ text, (late.apply home h2 op.encode).1 = .value (some text) →
      ∃ value : Value, valueBytes value = text) :
    (late.apply home h2 op.encode).2.events.length =
      op.countHits late.events.length (op.decode (late.apply home h2 op.encode).1) := by
  cases op with
  | get key =>
      cases hit : late.table.seek home (keyBytes key) with
      | none =>
          have missed : (late.table.views (home (keyBytes key))).find (keyBytes key) = none := by
            rw [Table.seek] at hit
            rw [View.find, hit]
            rfl
          simp [TypedOp.encode, LateTable.apply, hit, missed, TypedOp.decode, TypedOp.countHits]
      | some slot =>
          obtain ⟨text, held⟩ := slot_of_some hit
          have found : (late.table.views (home (keyBytes key))).find (keyBytes key) = some text := by
            rw [Table.seek] at hit
            rw [View.find, hit, Option.bind_some, held]
            rfl
          obtain ⟨value, rfl⟩ := decodes text (by simp [TypedOp.encode, LateTable.apply, found])
          have known : PulseValue.codec.fromBytes (valueBytes value) = some value :=
            PulseValue.codec.decodes value
          simp [TypedOp.encode, LateTable.apply, hit, found, TypedOp.decode, TypedOp.countHits, known]
  | remove key =>
      cases hit : late.table.seek home (keyBytes key) <;>
        simp [TypedOp.encode, LateTable.apply, hit, TypedOp.countHits]
  | _ => rfl

theorem follows_step (thread : Nat) (small : start ≤ SyncMap.maxBuckets)
    (follows : Follows wyhash start typed content late map) (op : TypedOp Key Value)
    (sized : op.encode.Sized) (unlimited : op.encode.Unlimited)
    (batch : op.encode.insertion.isSome → late.events.length ≤ SyncProgram.drainBatch) :
    ∃ result next after answer later moved,
      op.apply wyhash typed = some (result, next) ∧
      op.concurrent.encode.alone (plainConfig wyhash) thread map = some (answer, moved) ∧
      op.read answer = result ∧ Follows wyhash start next after later moved ∧
      later.events.length = op.countHits late.events.length result := by
  obtain ⟨result, raw, after, applied, kept, effect⟩ :=
    Raw.apply_effect follows.invariant op.encode sized
  have tabled := Raw.effect_table follows.invariant follows.timeless effect
  obtain ⟨sameSize, sameHome⟩ := Raw.effect_layout effect
  obtain ⟨moved, ran, reached, mirrors⟩ := SyncMap.alone_exec thread rfl small follows.reached
    follows.mirrors sized unlimited batch
  have fingerprints : SyncMap.fingerprint (plainConfig wyhash) = Raw.fingerprint wyhash := rfl
  rw [follows.same_home, fingerprints] at ran mirrors
  obtain ⟨sameResult, alike⟩ := LateTable.apply_alike follows.alike op.encode
  rw [tabled] at sameResult alike
  have decodes : ∀ text, (late.apply (typed.raw.bucketOf wyhash) (Raw.fingerprint wyhash)
      op.encode).1 = .value (some text) → ∃ value : Value, valueBytes value = text := by
    intro text found
    rw [sameResult] at found
    exact found_encoded follows.encoded effect found
  have reads := read_decode op _ _ late decodes
  have counts := events_counted op _ _ late decodes
  refine ⟨op.decode result, ⟨raw⟩, after, _, _, moved, ?_, by rw [op.concurrent_encode]; exact ran, ?_,
    ⟨kept, Raw.effect_timeless follows.timeless unlimited effect,
      Raw.effect_encoded follows.encoded effect, reached, ?_, alike⟩, ?_⟩
  · rw [TypedOp.apply_encode, applied]
    rfl
  · rw [reads, sameResult]
  · rw [sameSize]
    exact mirrors
  · rw [counts, sameResult]

theorem follows_observe (thread : Nat) (small : start ≤ SyncMap.maxBuckets)
    (follows : Follows wyhash start typed content late map) (result : TypedResult Value) :
    map.observe (plainConfig wyhash) thread result = typed.observe wyhash result := by
  have bindings : ∀ key : Key,
      ((TypedCall.peek key : TypedCall Key Value).encode.alone (plainConfig wyhash) thread map).map
        (fun answer => answer.1.found) = typed.peek wyhash key := by
    intro key
    obtain ⟨found, next, _, answer, _, moved, applied, ran, reads, _, _⟩ :=
      follows_step thread small follows (TypedOp.peek key) (fun _ _ _ call => by cases call) trivial
        (fun inserts => by cases inserts)
    obtain ⟨value, peeked, same⟩ := Option.map_eq_some_iff.mp applied
    rw [peeked]
    change (SyncCall.alone (plainConfig wyhash) thread map (.peek (keyBytes key))).map _ = _
    rw [show SyncCall.alone (plainConfig wyhash) thread map (.peek (keyBytes key)) =
      some (answer, moved) from ran, Option.map_some]
    rw [← reads] at same
    injection same with same _
    injection same with same
    rw [same]
  have evictions : map.evictionCount = typed.raw.evictionCount := by
    have counts := follows.alike.evictions
    rw [LateTable.settled, (Table.replay_counts late.table late.events).1, ← follows.mirrors.table]
      at counts
    exact counts
  have epochs : map.currentEpoch = typed.raw.currentEpoch := by
    have counts := follows.alike.epoch
    rw [LateTable.settled, (Table.replay_counts late.table late.events).2, ← follows.mirrors.table]
      at counts
    exact counts
  rw [SyncMap.observe, TypedPulseMap.observe, follows.same_count small, evictions, epochs,
    funext bindings]

/-- Two maps that follow each other show the same from here on, call after call. -/
theorem follows_run (thread : Nat) (small : start ≤ SyncMap.maxBuckets)
    (ops : List (TypedOp Key Value)) (follows : Follows wyhash start typed content late map)
    (sized : ∀ op ∈ ops, op.encode.Sized) (unlimited : ∀ op ∈ ops, op.encode.Unlimited)
    (batched : TypedOp.Batched wyhash late.events.length typed ops) :
    ∃ seen, typed.observations wyhash ops = some seen ∧
      map.observations (plainConfig wyhash) thread ops = some seen := by
  induction ops generalizing typed content late map with
  | nil => exact ⟨[], rfl, rfl⟩
  | cons op rest induction =>
      obtain ⟨batch, later⟩ := batched
      obtain ⟨result, next, after, answer, queue, moved, applied, ran, reads, still, counted⟩ :=
        follows_step thread small follows op (sized op (List.mem_cons_self ..))
          (unlimited op (List.mem_cons_self ..)) batch
      have going := later result next applied
      rw [← counted] at going
      obtain ⟨seen, typedSeen, syncSeen⟩ := induction still
        (fun other member => sized other (List.mem_cons_of_mem _ member))
        (fun other member => unlimited other (List.mem_cons_of_mem _ member)) going
      refine ⟨next.observe wyhash result :: seen, ?_, ?_⟩
      · simp only [TypedPulseMap.observations, applied, Option.bind_eq_bind, Option.bind_some,
          typedSeen]
      · simp only [SyncMap.observations, ran, Option.bind_eq_bind, Option.bind_some, syncSeen, reads,
          follows_observe thread small still]

theorem follows_new (wyhash : Bytes → Word) {numBuckets : Nat}
    (small : numBuckets ≤ SyncMap.maxBuckets) :
    Follows wyhash numBuckets (TypedPulseMap.new numBuckets : TypedPulseMap Key Value)
      (fun _ _ => none) ⟨(SyncMap.new numBuckets).table, []⟩ (SyncMap.new numBuckets) where
  invariant := Raw.new_invariant wyhash numBuckets (small.trans (by decide))
  timeless := Raw.new_timeless numBuckets
  encoded := TypedPulseMap.encoded_empty
  reached := ⟨[], fun _ _ member => by simp at member, rfl⟩
  mirrors := by
    refine ⟨rfl, rfl, rfl, ⟨Or.inl rfl, fun _ _ held => by cases held⟩, rfl, rfl, rfl, fun _ => ?_, by simp⟩
    exact SyncMap.queued_new numBuckets
  alike := Table.alike_refl _

end Simulation

/-- One thread sees the same of `ConcurrentPulseMap::new(n)` as of `TypedPulseMap::new(n)`,
while no ttl is finite and no drain leaves accesses behind. -/
theorem concurrent_equals_typed (wyhash : Bytes → Word) (numBuckets : Nat)
    (small : numBuckets ≤ SyncMap.maxBuckets) (thread : Nat) (ops : List (TypedOp Key Value))
    (sized : ∀ op ∈ ops, op.encode.Sized) (unlimited : ∀ op ∈ ops, op.encode.Unlimited)
    (batched : TypedOp.Batched wyhash 0 (TypedPulseMap.new numBuckets) ops) :
    ∃ seen, TypedPulseMap.observations wyhash (TypedPulseMap.new numBuckets) ops = some seen ∧
      SyncMap.observations (plainConfig wyhash) thread (SyncMap.new numBuckets) ops = some seen :=
  follows_run thread small ops (follows_new wyhash small) sized unlimited batched

theorem batched_short (wyhash : Bytes → Word) (hits : Nat) (map : TypedPulseMap Key Value)
    (ops : List (TypedOp Key Value)) (short : hits + ops.length ≤ SyncProgram.drainBatch) :
    TypedOp.Batched wyhash hits map ops := by
  induction ops generalizing hits map with
  | nil => trivial
  | cons op rest induction =>
      rw [List.length_cons] at short
      refine ⟨fun _ => by omega, ?_⟩
      intro result next _
      have more : op.countHits hits result ≤ hits + 1 := by
        unfold TypedOp.countHits
        split <;> omega
      exact induction _ next (by omega)

theorem concurrent_equals_typed_three_calls :
    let ops : List (TypedOp UInt32 UInt32) := [.insert 7 70, .get 7, .insertTtl 8 80 (BitVec.allOnes 64)]
    (∀ op ∈ ops, op.encode.Sized) ∧
      ∃ seen, TypedPulseMap.observations (fun _ => 0) (TypedPulseMap.new 1) ops = some seen ∧
        SyncMap.observations (plainConfig fun _ => 0) 3 (SyncMap.new 1) ops = some seen := by
  intro ops
  have sized : ∀ op ∈ ops, op.encode.Sized := by
    intro op member
    simp only [ops, List.mem_cons, List.not_mem_nil, or_false] at member
    rcases member with rfl | rfl | rfl
    · rintro key value ttl ⟨⟩
      decide
    · rintro key value ttl ⟨⟩
    · rintro key value ttl ⟨⟩
      decide
  have unlimited : ∀ op ∈ ops, op.encode.Unlimited := by
    intro op member
    simp only [ops, List.mem_cons, List.not_mem_nil, or_false] at member
    rcases member with rfl | rfl | rfl
    · trivial
    · trivial
    · exact Or.inr rfl
  exact ⟨sized, concurrent_equals_typed _ 1 (by decide) 3 ops sized unlimited
    (batched_short _ 0 _ ops (by decide))⟩

end PulseMap
