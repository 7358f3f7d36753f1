import PulseMap.Sync.Calls

/-!
The fourteen bytes of a slot say what was stored: whichever of the two layouts a pair was
written in, every reader finds the pair again, and both key comparisons recognise its key.
-/

namespace PulseMap

namespace Slot

theorem inline_lengths (self : Slot) : self.inlineKeyLen ≤ 7 ∧ self.inlineValLen ≤ 7 := by
  have low : ∀ byte : Byte, (byte &&& 0x07#8).toNat ≤ 7 := by decide
  exact ⟨low _, low _⟩

end Slot

theorem alloc_entry {pool grown : SlabPool} {key value : Bytes} {idx : Nat}
    (allocated : pool.alloc key value = some (idx, grown)) (small : key.length + value.length < 2 ^ 32) :
    idx ≤ pool.entries.length ∧ ∃ entry, grown.get idx = some entry ∧ entry.Carries key value := by
  unfold SlabPool.alloc at allocated
  split at allocated
  · rename_i first rest free
    obtain ⟨entry, found, same⟩ := Option.bind_eq_some_iff.mp allocated
    obtain ⟨rfl, rfl⟩ := Prod.mk.inj (Option.some.inj same)
    obtain ⟨below, _⟩ := List.getElem?_eq_some_iff.mp found
    refine ⟨below.le, entry.rewrite key value, ?_, SlabEntry.rewrite_carries entry key value small⟩
    simp [SlabPool.get, below]
  · obtain ⟨rfl, rfl⟩ := Prod.mk.inj (Option.some.inj allocated)
    exact ⟨le_rfl, SlabEntry.fresh key value, by simp [SlabPool.get],
      SlabEntry.fresh_carries key value small⟩

theorem alloc_returns {pool : SlabPool} (listed : ∀ idx ∈ pool.freeList, idx < pool.entries.length)
    (key value : Bytes) : ∃ idx grown, pool.alloc key value = some (idx, grown) := by
  unfold SlabPool.alloc
  split
  · rename_i first rest free
    have below := listed first (by rw [free]; exact List.mem_cons_self ..)
    exact ⟨first, _, by rw [List.getElem?_eq_getElem below]; rfl⟩
  · exact ⟨_, _, rfl⟩

/-- The comparison inside `get` is the one of `matches_key`. -/
theorem get_matches_exec {config : SyncConfig} {data : Slot} {key value : Bytes} {map : SyncMap}
    (thread : Nat) (stores : data.Stores config.wyhash map.layout.slabPool key value)
    (unlocked : map.slabHolder = none) (other : Bytes) :
    (SyncProgram.getMatches data other (config.hash other) : SyncProgram config Bool).exec thread map =
      some (decide (key = other), map) := by
  have unguarded : map.slabOpen thread false = true := by simp [SyncMap.slabOpen, unlocked]
  rcases stores with ⟨mode, sameKey, _⟩ | ⟨mode, high, low, entry, found, carries⟩
  · rw [SyncProgram.getMatches, if_pos mode, sameKey, beq_eq_decide]
    rfl
  · have slabMode : data.getMode ≠ 0#8 := by
      rw [mode]
      decide
    rw [SyncProgram.getMatches, if_neg slabMode]
    by_cases highDiffers : data.getExtFpHi ≠ (config.hash other).extFpHi
    · have different : key ≠ other := by
        rintro rfl
        exact highDiffers high
      rw [if_pos highDiffers, decide_eq_false different]
      rfl
    · rw [if_neg highDiffers]
      by_cases lowDiffers : data.getExtFp ≠ (config.hash other).extFp
      · have different : key ≠ other := by
          rintro rfl
          exact lowDiffers low
        rw [if_pos lowDiffers, decide_eq_false different]
        rfl
      · rw [if_neg lowDiffers]
        have answer : SyncMap.perform config thread (.slabKeyIs data.slabIdx other) map =
            some (some (decide (key = other)), map) := by
          simp only [SyncMap.perform, unguarded, if_true, found, Option.map_some, carries.1,
            beq_eq_decide]
        exact SyncProgram.exec_atomic _ answer

/-- The store step inside a concurrent insert is the one of the raw map and of `resize`. -/
theorem store_pair_exec {config : SyncConfig} {map : SyncMap} (thread bucketIdx : Nat) (place : Fin 4)
    (slot : Slot) (key value : Bytes) (unlocked : map.slabHolder = none) :
    ((SyncProgram.storePair bucketIdx place slot key value (config.hash key) :
        SyncProgram config Slot).exec thread map).map
        (fun outcome => (outcome.1, outcome.2.layout.slabPool)) =
      storeEntry (config.hash key) key value slot map.layout.slabPool := by
  have unguarded : map.slabOpen thread false = true := by simp [SyncMap.slabOpen, unlocked]
  unfold SyncProgram.storePair storeEntry
  split_ifs
  · rfl
  · cases allocated : map.layout.slabPool.alloc key value with
    | none =>
        have answer : SyncMap.perform config thread (.slabAlloc bucketIdx place key value) map =
            some (none, map) := by
          simp only [SyncMap.perform, unguarded, if_true, allocated]
        rw [SyncProgram.exec_atomic _ answer]
        rfl
    | some granted =>
        obtain ⟨idx, grown⟩ := granted
        have answer : SyncMap.perform config thread (.slabAlloc bucketIdx place key value) map =
            some (some idx, (map.setPool grown).setTransit bucketIdx (some (place, some idx))) := by
          simp only [SyncMap.perform, unguarded, if_true, allocated]
        rw [SyncProgram.exec_atomic _ answer]
        rfl

structure Encodes (wyhash : Bytes → Word) (pool grown : SlabPool) (key value : Bytes) (data : Slot) :
    Prop where
  mode : data.getMode = if Slot.FitsInline key value then 0#8 else 1#8
  keyBytes : data.getKeyBytes grown = some key
  valueBytes : data.getValueBytes grown = some value
  index : ¬Slot.FitsInline key value → pool.alloc key value = some (data.slabIdx, grown)
  /-- Neither a write nor a read leaves the fourteen bytes. -/
  written : Slot.FitsInline key value → 1 + key.length ≤ 7 ∧ 7 + value.length ≤ data.data.length
  read : 1 + data.inlineKeyLen ≤ data.data.length ∧ 7 + data.inlineValLen ≤ data.data.length
  matched : ∀ other, data.matchesKey other (computeHash wyhash other) grown =
    some (decide (key = other))
  /-- The comparison written out in `get`, with the slab mutex free. -/
  found : ∀ (config : SyncConfig) (map : SyncMap) thread other, config.wyhash = wyhash →
    map.layout.slabPool = grown → map.slabHolder = none →
    (SyncProgram.getMatches data other (config.hash other) : SyncProgram config Bool).exec thread map =
      some (decide (key = other), map)

/-- The store step of `insert` and `resize` for one pair, into any slot and any pool. -/
structure Lossless (wyhash : Bytes → Word) (pool : SlabPool) (key value : Bytes) (slot : Slot) :
    Prop where
  /-- It does not panic while the free list names entries of the pool. -/
  returns : (∀ idx ∈ pool.freeList, idx < pool.entries.length) →
    ∃ data grown, storeEntry (computeHash wyhash key) key value slot pool = some (data, grown)
  encodes : ∀ data grown, storeEntry (computeHash wyhash key) key value slot pool = some (data, grown) →
    Encodes wyhash pool grown key value data
  concurrent : ∀ (config : SyncConfig) (map : SyncMap) thread bucketIdx place,
    config.wyhash = wyhash → map.layout.slabPool = pool → map.slabHolder = none →
    ((SyncProgram.storePair bucketIdx place slot key value (config.hash key) :
        SyncProgram config Slot).exec thread map).map
        (fun outcome => (outcome.1, outcome.2.layout.slabPool)) =
      storeEntry (computeHash wyhash key) key value slot pool
  indices : ∀ high low idx, idx < 2 ^ 64 → (slot.setSlab high low idx).slabIdx = idx

theorem encodes_of_stores {wyhash : Bytes → Word} {pool grown : SlabPool} {key value : Bytes}
    {data : Slot} (mode : data.getMode = if Slot.FitsInline key value then 0#8 else 1#8)
    (index : ¬Slot.FitsInline key value → pool.alloc key value = some (data.slabIdx, grown))
    (stores : data.Stores wyhash grown key value) : Encodes wyhash pool grown key value data where
  mode := mode
  keyBytes := Slot.stores_key stores
  valueBytes := Slot.stores_value stores
  index := index
  written := by
    intro fits
    rw [data.size]
    exact ⟨by have short := fits.1; omega, by have short := fits.2; omega⟩
  read := by
    obtain ⟨keyLen, valLen⟩ := data.inline_lengths
    rw [data.size]
    omega
  matched := Slot.stores_matches stores
  found := by
    intro config map thread other sameHash samePool unlocked
    subst sameHash samePool
    exact get_matches_exec thread stores unlocked other

theorem slot_encoding_lossless (wyhash : Bytes → Word) (pool : SlabPool) (key value : Bytes)
    (slot : Slot) (small : key.length + value.length < 2 ^ 32)
    (addressable : pool.entries.length < 2 ^ 64) : Lossless wyhash pool key value slot where
  returns := by
    intro listed
    unfold storeEntry
    split_ifs
    · exact ⟨_, _, rfl⟩
    · obtain ⟨idx, grown, allocated⟩ := alloc_returns listed key value
      exact ⟨_, grown, by rw [allocated]; rfl⟩
  encodes := by
    intro data grown stored
    unfold storeEntry at stored
    split_ifs at stored with fits
    · obtain ⟨rfl, rfl⟩ := Prod.mk.inj (Option.some.inj stored)
      apply encodes_of_stores
      · rw [if_pos fits]
        exact Slot.get_mode_set_inline slot key value fits
      · exact fun wide => absurd fits wide
      · exact Slot.set_inline_stores slot pool fits
    · obtain ⟨⟨idx, after⟩, allocated, same⟩ := Option.bind_eq_some_iff.mp stored
      obtain ⟨rfl, rfl⟩ := Prod.mk.inj (Option.some.inj same)
      obtain ⟨below, entry, found, carries⟩ := alloc_entry allocated small
      have word : idx < 2 ^ 64 := below.trans_lt addressable
      apply encodes_of_stores
      · rw [if_neg fits]
        exact Slot.get_mode_set_slab ..
      · intro _
        rw [Slot.slab_idx_set_slab, Nat.mod_eq_of_lt word]
        exact allocated
      · exact Slot.set_slab_stores slot idx word found carries
  concurrent := by
    intro config map thread bucketIdx place sameHash samePool unlocked
    subst sameHash samePool
    exact store_pair_exec thread bucketIdx place slot key value unlocked
  indices := by
    intro high low idx word
    rw [Slot.slab_idx_set_slab, Nat.mod_eq_of_lt word]

theorem slot_encoding_lossless_boundary :
    Lossless (fun _ => 0) SlabPool.new [1, 2, 3, 4, 5, 6] [1, 2, 3, 4, 5, 6, 7] Slot.empty ∧
      Lossless (fun _ => 0) SlabPool.new [] [1, 2, 3, 4, 5, 6, 7, 8] Slot.empty :=
  ⟨slot_encoding_lossless _ _ _ _ _ (by decide) (by decide),
    slot_encoding_lossless _ _ _ _ _ (by decide) (by decide)⟩

end PulseMap
