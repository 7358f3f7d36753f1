import PulseMap.Library.Wrapping
import PulseMap.Raw.Bulk

/-!
`traits.rs`: the map made of a standard hash map. The hash map yields its pairs in any
order. How many of them fit, and how many are evicted, is the same in every order, and
every pair can be read back iff none was evicted.
-/

namespace PulseMap

variable {Key Value : Type} [PulseKey Key] [PulseValue Value]

/-- `From<HashMap>::from`, of the pairs in the order in which the hash map yields them. -/
def TypedPulseMap.fromHashMap (wyhash : Bytes → Word) (map : List (Key × Value)) :
    Option (TypedPulseMap Key Value) :=
  let numBuckets := max (map.length / 3) 16
  (TypedPulseMap.new numBuckets).extend wyhash map

structure Converts (wyhash : Bytes → Word) (pairs : List (Key × Value))
    (map : TypedPulseMap Key Value) : Prop where
  buckets : map.raw.numBuckets = nextPowerOfTwo (max (pairs.length / 3) 16)
  mask : map.raw.bucketMask = map.raw.numBuckets - 1
  room : pairs.length ≤ map.raw.capacity ∧ 4 * pairs.length ≤ 3 * map.raw.capacity + 8
  epoch : map.raw.currentEpoch = BitVec.ofNat 64 pairs.length
  /-- A read gives what the hash map holds for the key, or nothing. -/
  read : ∀ key value, map.peek wyhash key = some (some value) → (key, value) ∈ pairs
  /-- The pairs of a bucket to which at most four keys belong are all there. -/
  found : ∀ pair ∈ pairs,
    (Raw.arrivals (map.raw.bucketOf wyhash) (pairs.map TypedIter.stored)
      (map.raw.bucketOf wyhash (keyBytes pair.1))).card ≤ 4 →
    map.peek wyhash pair.1 = some (some pair.2)
  len : map.raw.len = ∑ bucket ∈ Finset.range map.raw.numBuckets,
    min 4 (Raw.arrivals (map.raw.bucketOf wyhash) (pairs.map TypedIter.stored) bucket).card
  balance : map.raw.len + map.raw.evictionCount = pairs.length
  /-- Nothing was evicted iff every pair can be read back. -/
  lossless : map.raw.evictionCount = 0 ↔
    ∀ pair ∈ pairs, map.peek wyhash pair.1 = some (some pair.2)

theorem sum_arrivals (home : Bytes → Nat) (pairs : List (Bytes × Bytes)) {size : Nat}
    (inside : ∀ name, home name < size) (distinct : (pairs.map Prod.fst).Nodup) :
    ∑ bucket ∈ Finset.range size, (Raw.arrivals home pairs bucket).card = pairs.length := by
  have parts := Finset.card_eq_sum_card_fiberwise (f := home) (s := (pairs.map Prod.fst).toFinset)
    (t := Finset.range size) fun name _ => Finset.mem_coe.mpr (Finset.mem_range.mpr (inside name))
  rw [List.toFinset_card_of_nodup distinct, List.length_map] at parts
  exact parts.symm

section Conversion

variable {wyhash : Bytes → Word} {map : PulseMapRaw} {content : Nat → Content}
  {pairs : List (Key × Value)} {numBuckets : Nat}

theorem stored_names_nodup (distinct : (pairs.map Prod.fst).Nodup) :
    ((pairs.map TypedIter.stored).map Prod.fst).Nodup := by
  have named : (pairs.map TypedIter.stored).map Prod.fst = (pairs.map Prod.fst).map keyBytes := by
    rw [List.map_map, List.map_map]
    rfl
  rw [named]
  exact distinct.map PulseKey.codec.to_bytes_injective

variable (filled : Raw.Filled wyhash (PulseMapRaw.new numBuckets) (fun _ _ => none)
  (pairs.map TypedIter.stored) map content)
include filled

theorem converted_saturates (bucket : Nat) : Saturates 4 (heldKeys (content bucket))
    (Raw.arrivals (map.bucketOf wyhash) (pairs.map TypedIter.stored) bucket) := by
  have saturates := filled.saturates bucket
  have none : heldKeys (fun _ => none) = ∅ := rfl
  rw [none, Finset.empty_union, ← funext (Raw.filled_home filled)] at saturates
  exact saturates

theorem converted_held {bucket : Nat} {slot : Fin 4} {key : Key} {text : Bytes}
    (held : content bucket slot = some (keyBytes key, text)) :
    ∃ value, (key, value) ∈ pairs ∧ valueBytes value = text := by
  rcases filled.values bucket slot (keyBytes key) text held with last | ⟨_, _, old⟩
  · obtain ⟨value, ⟨past, future, split, _⟩, same⟩ := last_pair_typed last
    exact ⟨value, by simp [split], same⟩
  · cases old

theorem converted_read {key : Key} {value : Value}
    (peeked : (⟨map⟩ : TypedPulseMap Key Value).peek wyhash key = some (some value)) :
    (key, value) ∈ pairs := by
  obtain ⟨slot, text, held, decoded⟩ :=
    (typed_peek filled.invariant filled.timeless key value).mp peeked
  obtain ⟨stored, member, rfl⟩ := converted_held filled held
  rw [valueBytes, PulseValue.codec.decodes] at decoded
  rwa [← Option.some.inj decoded]

variable (distinct : (pairs.map Prod.fst).Nodup)
include distinct

theorem converted_found {pair : Key × Value} (member : pair ∈ pairs) :
    (⟨map⟩ : TypedPulseMap Key Value).peek wyhash pair.1 = some (some pair.2) ↔
      keyBytes pair.1 ∈ heldKeys (content (map.bucketOf wyhash (keyBytes pair.1))) := by
  rw [typed_peek filled.invariant filled.timeless, mem_held_keys]
  constructor
  · rintro ⟨slot, text, held, _⟩
    exact ⟨slot, text, held⟩
  · rintro ⟨slot, text, held⟩
    obtain ⟨value, other, rfl⟩ := converted_held filled held
    have same := List.inj_on_of_nodup_map distinct other member rfl
    refine ⟨slot, valueBytes value, held, ?_⟩
    rw [← same]
    exact PulseValue.codec.decodes value

theorem converted_balance : map.count + map.evictionCount = pairs.length := by
  have counts := filled.counts (stored_names_nodup distinct) fun _ _ => rfl
  rw [List.length_map] at counts
  exact counts.trans (Nat.zero_add _)

theorem converted_arrivals : ∑ bucket ∈ Finset.range map.numBuckets,
    (Raw.arrivals (map.bucketOf wyhash) (pairs.map TypedIter.stored) bucket).card = pairs.length := by
  rw [sum_arrivals _ _ (Raw.bucket_of_lt filled.invariant) (stored_names_nodup distinct),
    List.length_map]

theorem converted_lossless : map.evictionCount = 0 ↔
    ∀ pair ∈ pairs, (⟨map⟩ : TypedPulseMap Key Value).peek wyhash pair.1 = some (some pair.2) := by
  have balance := converted_balance filled distinct
  have arrived := converted_arrivals filled distinct
  rw [Raw.count_held_keys filled.invariant] at balance
  have less : ∀ bucket ∈ Finset.range map.numBuckets, (heldKeys (content bucket)).card ≤
      (Raw.arrivals (map.bucketOf wyhash) (pairs.map TypedIter.stored) bucket).card :=
    fun bucket _ => Finset.card_le_card (converted_saturates filled bucket).subset
  have equal := Finset.sum_eq_sum_iff_of_le less
  constructor
  · intro none pair member
    have all := equal.mp (by omega) (map.bucketOf wyhash (keyBytes pair.1))
      (Finset.mem_range.mpr (Raw.bucket_of_lt filled.invariant _))
    have same := Finset.eq_of_subset_of_card_le (converted_saturates filled _).subset all.ge
    rw [converted_found filled distinct member, same, Raw.arrivals, Finset.mem_filter,
      List.mem_toFinset, List.map_map]
    exact ⟨List.mem_map.mpr ⟨pair, member, rfl⟩, rfl⟩
  · intro found
    have all := equal.mpr fun bucket inside => Nat.le_antisymm (less bucket inside)
      (Finset.card_le_card fun name member => by
        rw [Raw.arrivals, Finset.mem_filter, List.mem_toFinset, List.map_map] at member
        obtain ⟨named, rfl⟩ := member
        obtain ⟨pair, listed, rfl⟩ := List.mem_map.mp named
        exact (converted_found filled distinct listed).mp (found pair listed))
    omega

theorem filled_converts (size : numBuckets = max (pairs.length / 3) 16) :
    Converts wyhash pairs (⟨map⟩ : TypedPulseMap Key Value) := by
  have buckets : map.numBuckets = nextPowerOfTwo (max (pairs.length / 3) 16) := by
    rw [filled.buckets, PulseMapRaw.new, Nat.max_eq_left (by omega), size]
  have large := le_next_power_of_two (max (pairs.length / 3) 16)
  rw [← buckets] at large
  refine ⟨buckets, filled.invariant.mask, ?_, ?_, fun key value => converted_read filled, ?_, ?_,
    converted_balance filled distinct, converted_lossless filled distinct⟩
  · change pairs.length ≤ map.numBuckets * 4 ∧ 4 * pairs.length ≤ 3 * (map.numBuckets * 4) + 8
    omega
  · rw [filled.epoch, List.length_map]
    exact BitVec.zero_add _
  · intro pair member fits
    rw [converted_found filled distinct member, (converted_saturates filled _).all_held fits,
      Raw.arrivals, Finset.mem_filter, List.mem_toFinset, List.map_map]
    exact ⟨List.mem_map.mpr ⟨pair, member, rfl⟩, rfl⟩
  · rw [PulseMapRaw.len, Raw.count_held_keys filled.invariant]
    exact Finset.sum_congr rfl fun bucket _ => (converted_saturates filled bucket).card

end Conversion

theorem from_hash_map_converts (wyhash : Bytes → Word) (pairs : List (Key × Value))
    (bound : pairs.length / 3 ≤ 2 ^ 58) (distinct : (pairs.map Prod.fst).Nodup)
    (small : ∀ pair ∈ pairs, (keyBytes pair.1).length + (valueBytes pair.2).length < 2 ^ 32) :
    ∃ map, TypedPulseMap.fromHashMap wyhash pairs = some map ∧ Converts wyhash pairs map := by
  have invariant := Raw.new_invariant wyhash (max (pairs.length / 3) 16) (by omega)
  obtain ⟨map, content, inserted, filled⟩ := Raw.filled_run (pairs.map TypedIter.stored)
    (fun pair member => by
      obtain ⟨typed, inside, rfl⟩ := List.mem_map.mp member
      exact small typed inside)
    (Raw.filled_start invariant (Raw.new_timeless _))
  refine ⟨⟨map⟩, ?_, filled_converts filled distinct rfl⟩
  rw [TypedPulseMap.fromHashMap, TypedPulseMap.new, extend_encode, inserted]
  rfl

/-- The order in which the hash map yields its pairs decides at most which keys are evicted. -/
theorem hash_map_conversion (wyhash : Bytes → Word) (pairs : List (Key × Value))
    (bound : pairs.length / 3 ≤ 2 ^ 58) (distinct : (pairs.map Prod.fst).Nodup)
    (small : ∀ pair ∈ pairs, (keyBytes pair.1).length + (valueBytes pair.2).length < 2 ^ 32) :
    ∃ map, TypedPulseMap.fromHashMap wyhash pairs = some map ∧ Converts wyhash pairs map ∧
      ∀ others : List (Key × Value), others.Perm pairs →
        ∃ other, TypedPulseMap.fromHashMap wyhash others = some other ∧
          other.raw.numBuckets = map.raw.numBuckets ∧ other.raw.len = map.raw.len ∧
          other.raw.evictionCount = map.raw.evictionCount ∧
          (map.raw.evictionCount = 0 →
            ∀ key value, other.peek wyhash key = some (some value) ↔
              map.peek wyhash key = some (some value)) := by
  obtain ⟨map, made, converts⟩ := from_hash_map_converts wyhash pairs bound distinct small
  refine ⟨map, made, converts, fun others same => ?_⟩
  obtain ⟨other, remade, reconverts⟩ := from_hash_map_converts wyhash others
    (by rw [same.length_eq]; exact bound) ((same.map Prod.fst).nodup_iff.mpr distinct)
    fun pair member => small pair (same.mem_iff.mp member)
  have buckets : other.raw.numBuckets = map.raw.numBuckets := by
    rw [reconverts.buckets, converts.buckets, same.length_eq]
  have homes : other.raw.bucketOf wyhash = map.raw.bucketOf wyhash := by
    funext name
    rw [PulseMapRaw.bucketOf, PulseMapRaw.bucketOf, reconverts.mask, converts.mask, buckets]
  have len : other.raw.len = map.raw.len := by
    rw [reconverts.len, converts.len, buckets, homes]
    refine Finset.sum_congr rfl fun bucket _ => ?_
    rw [Raw.arrivals, Raw.arrivals,
      List.toFinset_eq_of_perm _ _ ((same.map TypedIter.stored).map Prod.fst)]
  have evictions : other.raw.evictionCount = map.raw.evictionCount := by
    have before := converts.balance
    have after := reconverts.balance
    rw [same.length_eq] at after
    omega
  refine ⟨other, remade, buckets, len, evictions, fun none key value => ⟨?_, ?_⟩⟩
  · intro peeked
    exact converts.lossless.mp none (key, value) (same.mem_iff.mp (reconverts.read key value peeked))
  · intro peeked
    exact reconverts.lossless.mp (evictions.trans none) (key, value)
      (same.mem_iff.mpr (converts.read key value peeked))

theorem hash_map_conversion_two_pairs :
    ∃ map : TypedPulseMap UInt8 UInt8,
      TypedPulseMap.fromHashMap (fun _ => 0) [(1, 2), (3, 4)] = some map ∧
      Converts (fun _ => 0) [(1, 2), (3, 4)] map ∧
      ∀ others : List (UInt8 × UInt8), others.Perm [(1, 2), (3, 4)] →
        ∃ other, TypedPulseMap.fromHashMap (fun _ => 0) others = some other ∧
          other.raw.numBuckets = map.raw.numBuckets ∧ other.raw.len = map.raw.len ∧
          other.raw.evictionCount = map.raw.evictionCount ∧
          (map.raw.evictionCount = 0 →
            ∀ key value, other.peek (fun _ => 0) key = some (some value) ↔
              map.peek (fun _ => 0) key = some (some value)) :=
  hash_map_conversion (fun _ => 0) [(1, 2), (3, 4)] (by norm_num) (by decide)
    (fun _ _ => show 1 + 1 < 2 ^ 32 by norm_num)

end PulseMap
