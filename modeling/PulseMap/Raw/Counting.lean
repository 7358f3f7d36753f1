import PulseMap.Raw.Iter
import PulseMap.Raw.Lifetime

/-!
The counters against the run, and the iterators against the counters. Every new key adds
one to the count or to the evictions and every removal takes one from the count, so the
three together count the inserts of new keys; an iteration yields as many pairs as the
count says, each key once and with the value a read would see.
-/

namespace PulseMap.Raw

variable {wyhash : Bytes → Word} {map : PulseMapRaw} {content : Nat → Content}

/-- The inserts of keys that were not stored, and the removals that returned true. -/
structure Tally where
  fresh : Nat
  removed : Nat

def Tally.count (self : Tally) (map : PulseMapRaw) (op : RawOp) (result : RawResult) : Tally where
  fresh := self.fresh +
    match op.insertion with
    | some (key, _, _) => if map.cache.entries key = none then 1 else 0
    | none => 0
  removed := self.removed +
    match result with
    | .removed true => 1
    | _ => 0

def tallied (wyhash : Bytes → Word) :
    PulseMapRaw → Tally → List RawOp → Option (PulseMapRaw × Tally)
  | map, tally, [] => some (map, tally)
  | map, tally, op :: rest => do
      let (result, next) ← op.apply wyhash map
      tallied wyhash next (tally.count map op result) rest

def fullSlots (map : PulseMapRaw) : Nat :=
  ∑ bucket ∈ Finset.range map.numBuckets,
    (Finset.univ.filter fun slot : Fin 4 =>
      (map.buckets bucket).metaWord.getState slot = .full).card

/-- The counters balance: what was added is still there, was evicted or was removed. -/
def Balanced (map : PulseMapRaw) (tally : Tally) : Prop :=
  map.count + map.evictionCount + tally.removed = tally.fresh

theorem held_counted (invariant : Invariant wyhash map content) {bucket : Nat} {slot : Fin 4}
    {key value : Bytes} (held : content bucket slot = some (key, value)) : 0 < map.count := by
  have inside := bucket_of_lt invariant key
  rw [invariant.home bucket slot key value held] at inside
  rw [invariant.counted]
  apply Finset.card_pos.mpr
  refine ⟨(bucket, slot), ?_⟩
  simp [fullPositions, mem_positions, inside, held]

theorem effect_balanced (before : Invariant wyhash map content) {op : RawOp} {result : RawResult}
    {next : PulseMapRaw} {after : Nat → Content} {tally : Tally} (balanced : Balanced map tally)
    (effect : Effect wyhash map content op result next after) :
    Balanced next (tally.count map op result) := by
  cases effect with
  | updated call held =>
      simp only [Balanced, Tally.count, call, cache_held before held]
      exact balanced
  | @placed op key value ttl slot isEviction data pool call missing target full =>
      simp only [Balanced, Tally.count, call, cache_absent before missing, if_true] at balanced ⊢
      rw [after_place_count]
      cases isEviction with
      | true =>
          change map.count + (map.evictionCount + 1) + _ = _
          omega
      | false =>
          change map.count + 1 + map.evictionCount + _ = _
          omega
  | hit held live => exact balanced
  | peeked held live => exact balanced
  | missed call hidden => rcases call with rfl | rfl <;> exact balanced
  | @removed key value slot held =>
      have positive := held_counted before held
      simp only [Balanced, Tally.count, RawOp.insertion] at balanced ⊢
      rw [remove_slot_count]
      change map.count - 1 + map.evictionCount + _ = _
      omega
  | unremoved missing => exact balanced
  | retuned ttl => exact balanced

theorem run_balanced (ops : List RawOp) (sized : ∀ op ∈ ops, op.Sized) {tally : Tally}
    (invariant : Invariant wyhash map content) (balanced : Balanced map tally) :
    ∃ last after final, tallied wyhash map tally ops = some (last, final) ∧
      Invariant wyhash last after ∧ Balanced last final := by
  induction ops generalizing map content tally with
  | nil => exact ⟨map, content, tally, rfl, invariant, balanced⟩
  | cons op rest induction =>
      obtain ⟨result, next, after, applied, kept, effect⟩ :=
        apply_effect invariant op (sized op (by simp))
      obtain ⟨last, final, sums, ran, holds, still⟩ := induction
        (fun other member => sized other (by simp [member])) kept
        (effect_balanced invariant balanced effect)
      exact ⟨last, final, sums, by simp [tallied, applied, ran], holds, still⟩

theorem count_full_slots (invariant : Invariant wyhash map content) :
    map.count = fullSlots map := by
  rw [invariant.counted, fullPositions, positions, Finset.card_filter, Finset.sum_product, fullSlots]
  apply Finset.sum_congr rfl
  intro bucket _
  rw [Finset.card_filter]
  apply Finset.sum_congr rfl
  intro slot _
  simp only [meta_full_iff (invariant.metaAgrees bucket) slot]

theorem count_le_capacity (invariant : Invariant wyhash map content) :
    map.count ≤ map.capacity := by
  have bound := Finset.card_filter_le (positions map.numBuckets) fun position =>
    (content position.1 position.2).isSome
  rw [invariant.counted, PulseMapRaw.capacity]
  rw [positions_card] at bound
  rw [fullPositions]
  omega

/-! ### What the iterator yields -/

theorem rest_new (map : PulseMapRaw) (content : Nat → Content) :
    (RawIter.new map).rest content = RawIter.restBuckets content map.numBuckets 0 := by
  by_cases more : (RawIter.new map).bucketIdx < (RawIter.new map).map.numBuckets
  · rw [RawIter.rest, if_pos more]
    exact (RawIter.rest_buckets_step content more).symm
  · rw [RawIter.rest, if_neg more]
    have none : map.numBuckets = 0 := Nat.eq_zero_of_not_pos more
    simp [RawIter.restBuckets, none]

theorem rest_slots_length (content : Content) :
    (RawIter.restSlots content 0).length = ∑ slot, if (content slot).isSome then 1 else 0 := by
  rw [Fin.sum_univ_four]
  cases zero : content 0 <;> cases one : content 1 <;> cases two : content 2 <;>
    cases three : content 3 <;> simp [RawIter.restSlots, List.finRange_succ, zero, one, two, three]

theorem rest_length (invariant : Invariant wyhash map content) :
    ((RawIter.new map).rest content).length = map.count := by
  have buckets : ∀ sizes : Nat → Nat, ((List.range map.numBuckets).map sizes).sum =
      ∑ bucket ∈ Finset.range map.numBuckets, sizes bucket := fun sizes => rfl
  rw [rest_new, RawIter.restBuckets, List.length_flatMap, Nat.sub_zero, ← List.range_eq_range',
    buckets, invariant.counted, fullPositions, positions, Finset.card_filter, Finset.sum_product]
  apply Finset.sum_congr rfl
  intro bucket _
  exact rest_slots_length (content bucket)

theorem mem_rest_new (invariant : Invariant wyhash map content) (pair : Bytes × Bytes) :
    pair ∈ (RawIter.new map).rest content ↔ ∃ bucket slot, content bucket slot = some pair := by
  constructor
  · exact RawIter.mem_rest
  · rintro ⟨bucket, slot, held⟩
    have inside := bucket_of_lt invariant pair.1
    rw [invariant.home bucket slot pair.1 pair.2 held] at inside
    rw [rest_new, RawIter.restBuckets, Nat.sub_zero, ← List.range_eq_range']
    apply List.mem_flatMap.mpr
    refine ⟨bucket, List.mem_range.mpr inside, ?_⟩
    exact List.mem_filterMap.mpr ⟨slot, by simp, held⟩

theorem rest_keys_distinct (invariant : Invariant wyhash map content) :
    (((RawIter.new map).rest content).map Prod.fst).Nodup := by
  have named : (fun bucket => (RawIter.restSlots (content bucket) 0).map Prod.fst) =
      fun bucket => (List.finRange 4).filterMap fun slot =>
        (content bucket slot).map Prod.fst := by
    funext bucket
    rw [RawIter.restSlots, List.map_filterMap, List.drop_zero]
  rw [rest_new, RawIter.restBuckets, Nat.sub_zero, ← List.range_eq_range', List.map_flatMap, named,
    List.nodup_flatMap]
  constructor
  · intro bucket _
    apply List.Nodup.filterMap _ (List.nodup_finRange 4)
    intro slot other key here there
    obtain ⟨⟨name, value⟩, held, same⟩ := Option.map_eq_some_iff.mp here
    obtain ⟨⟨again, otherValue⟩, otherHeld, rfl⟩ := Option.map_eq_some_iff.mp there
    simp only at same
    subst same
    exact invariant.distinct bucket slot other name value otherValue held otherHeld
  · apply List.Pairwise.imp _ (List.nodup_range)
    intro bucket other different key here there
    obtain ⟨slot, _, found⟩ := List.mem_filterMap.mp here
    obtain ⟨place, _, otherFound⟩ := List.mem_filterMap.mp there
    obtain ⟨⟨name, value⟩, held, rfl⟩ := Option.map_eq_some_iff.mp found
    obtain ⟨⟨again, otherValue⟩, otherHeld, same⟩ := Option.map_eq_some_iff.mp otherFound
    simp only at same
    subst same
    exact different ((invariant.home bucket slot again value held).symm.trans
      (invariant.home other place again otherValue otherHeld))

/-! ### The laws -/

/-- The counters of the map and the pairs an iteration yields. -/
structure Countable (wyhash : Bytes → Word) (map : PulseMapRaw) (tally : Tally) : Prop where
  full : map.len = fullSlots map
  room : map.len ≤ map.capacity
  /-- A removal that finds its key never takes one from a count of zero. -/
  positive : ∀ key next, map.remove wyhash key = some (true, next) →
    0 < map.len ∧ next.len + 1 = map.len
  balance : map.len + map.evictionCount + tally.removed = tally.fresh

/-- The pairs yielded: as many as counted, each key once, exactly those stored; the
unexpired ones are those that `peek` returns. -/
structure Iterates (wyhash : Bytes → Word) (map : PulseMapRaw) (pairs : List (Bytes × Bytes)) :
    Prop where
  length : pairs.length = map.len
  distinct : (pairs.map Prod.fst).Nodup
  stored : ∀ key value, (key, value) ∈ pairs ↔
    ∃ entry, map.cache.entries key = some entry ∧ entry.value = value
  peeked : ∀ key value, map.peek wyhash key = some (some value) → (key, value) ∈ pairs
  unexpired : ∀ key value entry, (key, value) ∈ pairs → map.cache.entries key = some entry →
    map.cache.Expired entry = false → map.peek wyhash key = some (some value)

theorem countable (invariant : Invariant wyhash map content) {tally : Tally}
    (balanced : Balanced map tally) : Countable wyhash map tally where
  full := count_full_slots invariant
  room := count_le_capacity invariant
  positive := by
    intro key next removed
    cases found : slotOf (content (map.bucketOf wyhash key)) key with
    | none => simp [PulseMapRaw.remove, locate_spec invariant key, found] at removed
    | some slot =>
        obtain ⟨value, held⟩ := slot_of_some found
        have positive := held_counted invariant held
        have result := (remove_spec invariant held).1
        rw [removed] at result
        obtain rfl : next = map.removeSlot (map.bucketOf wyhash key) slot := by simpa using result
        refine ⟨positive, ?_⟩
        change map.count - 1 + 1 = map.count
        omega
  balance := balanced

theorem iterates (invariant : Invariant wyhash map content) :
    Iterates wyhash map ((RawIter.new map).rest content) := by
  have stored : ∀ key value, (key, value) ∈ (RawIter.new map).rest content ↔
      ∃ entry, map.cache.entries key = some entry ∧ entry.value = value := by
    intro key value
    rw [mem_rest_new invariant]
    constructor
    · rintro ⟨bucket, slot, held⟩
      exact ⟨stamped map bucket slot value,
        (cache_entries_iff invariant key _).mpr ⟨bucket, slot, value, held, rfl⟩, rfl⟩
    · rintro ⟨entry, found, rfl⟩
      obtain ⟨bucket, slot, value, held, rfl⟩ := (cache_entries_iff invariant key entry).mp found
      exact ⟨bucket, slot, held⟩
  refine ⟨rest_length invariant, rest_keys_distinct invariant, stored, ?_, ?_⟩
  · intro key value peeked
    rw [peek_visible invariant key, Option.some.injEq] at peeked
    exact (stored key value).mpr (visible_entry peeked)
  · intro key value entry member found live
    obtain ⟨again, bound, rfl⟩ := (stored key value).mp member
    obtain rfl : entry = again := Option.some.inj (found.symm.trans bound)
    rw [peek_visible invariant key, Cache.visible, found]
    simp [live]

theorem raw_counts_and_iterates (wyhash : Bytes → Word) (numBuckets : Nat)
    (bound : numBuckets ≤ 2 ^ 58) :
    (∀ ops : List RawOp, (∀ op ∈ ops, op.Sized) → ∃ map tally pairs,
      tallied wyhash (PulseMapRaw.new numBuckets) ⟨0, 0⟩ ops = some (map, tally) ∧
      Countable wyhash map tally ∧ (RawIter.new map).toList = some pairs ∧
      Iterates wyhash map pairs) ∧
    ∀ (Key Value : Type) [PulseKey Key] [PulseValue Value] (ops : List (TypedOp Key Value)),
      (∀ op ∈ ops, op.encode.Sized) → ∃ (map : PulseMapRaw) (items : List (Key × Value)),
        TypedOp.run wyhash (TypedPulseMap.new numBuckets) ops = some ⟨map⟩ ∧
        (TypedIter.new map).toList = some items ∧
        (RawIter.new map).toList = some (items.map TypedIter.stored) ∧
        Iterates wyhash map (items.map TypedIter.stored) := by
  have start := new_invariant wyhash numBuckets bound
  constructor
  · intro ops sized
    obtain ⟨map, content, tally, ran, invariant, balanced⟩ := run_balanced ops sized start
      (show Balanced (PulseMapRaw.new numBuckets) ⟨0, 0⟩ from rfl)
    exact ⟨map, tally, _, ran, countable invariant balanced,
      RawIter.to_list_rest (RawIter.new map) invariant, iterates invariant⟩
  · intro Key Value _ _ ops sized
    obtain ⟨map, content, ran, invariant, encoded⟩ := run_encoded ops sized start
      (show Encoded Key Value fun _ _ => none from fun _ _ _ _ held => by cases held)
    obtain ⟨items, typed, raw⟩ := TypedIter.to_list_encoded
      (TypedIter.new map : TypedIter Key Value) invariant encoded
    refine ⟨map, items, ran, typed, raw, ?_⟩
    have all := RawIter.to_list_rest (RawIter.new map) invariant
    rw [show (RawIter.new map).toList = some (items.map TypedIter.stored) from raw] at all
    rw [Option.some.inj all]
    exact iterates invariant

theorem raw_counts_and_iterates_crowded :
    ∃ map tally pairs,
      tallied (fun _ => 0) (PulseMapRaw.new 1) ⟨0, 0⟩ crowdedRun = some (map, tally) ∧
      Countable (fun _ => 0) map tally ∧ (RawIter.new map).toList = some pairs ∧
      Iterates (fun _ => 0) map pairs :=
  (raw_counts_and_iterates (fun _ => 0) 1 (by norm_num)).1 crowdedRun crowded_run_sized

end PulseMap.Raw
