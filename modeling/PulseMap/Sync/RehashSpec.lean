import PulseMap.Sync.Layout

/-!
Rehashing loses nothing and needs one pass. A key's bucket under the larger mask reduces
to its bucket under the smaller one, so the entries that meet in a new bucket all come
from one old bucket, and these are at most four.
-/

namespace PulseMap

theorem SyncConfig.bucket_index_mod (config : SyncConfig) (hash : Word) (bits : Nat) :
    config.bucketIndex hash (2 ^ bits - 1) =
      (if config.shardedIndex then bucketHash hash else hash).toNat % 2 ^ bits :=
  Nat.and_two_pow_sub_one_eq_mod _ _

theorem SyncConfig.bucket_index_refines (config : SyncConfig) (hash : Word) {few many : Nat}
    (fewer : few ≤ many) :
    config.bucketIndex hash (2 ^ many - 1) % 2 ^ few = config.bucketIndex hash (2 ^ few - 1) := by
  rw [bucket_index_mod, bucket_index_mod, Nat.mod_mod_of_dvd _ (Nat.pow_dvd_pow 2 fewer)]

namespace Layout

def still : Transit := fun _ => none

variable {config : SyncConfig} {layout : Layout}

def entryOf (layout : Layout) (position : Position) : Option EntryData :=
  (layout.content position.1 position.2).map fun pair =>
    ⟨pair.1, pair.2, layout.epochs (position.1 * 4 + position.2.val)⟩

theorem entry_at_eq (invariant : layout.Invariant config still) (bucket : Nat) (slot : Fin 4) :
    layout.entryAt bucket slot = some (layout.entryOf (bucket, slot)) := by
  have packed := invariant.metaAgrees bucket slot
  have bytes := invariant.slotAgrees bucket slot (by simp [still])
  cases held : layout.content bucket slot with
  | none =>
      simp only [held] at packed
      simp [entryAt, entryOf, packed, held]
  | some pair =>
      simp only [held, SlotAgrees] at packed bytes
      simp [entryAt, entryOf, packed.1, held, Slot.stores_key bytes, Slot.getValueBytes,
        Slot.stores_value bytes]

theorem collect_eq (invariant : layout.Invariant config still) (positions : List Position) :
    layout.collect positions = some (positions.filterMap layout.entryOf) := by
  induction positions with
  | nil => rfl
  | cons position rest induction =>
      obtain ⟨bucket, slot⟩ := position
      simp only [collect, entry_at_eq invariant, induction, List.filterMap_cons]
      cases layout.entryOf (bucket, slot) <;> simp

theorem mem_places {numBuckets bucket : Nat} {slot : Fin 4} :
    (bucket, slot) ∈ places numBuckets ↔ bucket < numBuckets := by
  simp [places]

theorem places_nodup (numBuckets : Nat) : (places numBuckets).Nodup := by
  unfold places
  rw [List.nodup_flatMap]
  constructor
  · intro bucket _
    exact (List.nodup_finRange 4).map (fun _ _ same => (Prod.mk.inj same).2)
  · refine List.Pairwise.imp ?_ List.nodup_range
    intro first second different position inFirst inSecond
    obtain ⟨_, _, rfl⟩ := List.mem_map.mp inFirst
    obtain ⟨_, _, same⟩ := List.mem_map.mp inSecond
    exact different (Prod.mk.inj same).1.symm

theorem content_inside (invariant : layout.Invariant config still) {bucket : Nat} {slot : Fin 4}
    {key value : Bytes} (held : layout.content bucket slot = some (key, value)) :
    bucket < layout.numBuckets := by
  rw [← invariant.home bucket slot key value held]
  exact index_lt invariant _

/-! ### Placing the entries -/

/-- The layout holds exactly the entries placed so far. -/
structure Rebuilt (config : SyncConfig) (actual : Nat) (placed : List EntryData) (layout : Layout) :
    Prop where
  invariant : layout.Invariant config still
  size : layout.numBuckets = actual
  holds : ∀ entry, entry ∈ placed ↔ ∃ position, layout.entryOf position = some entry

theorem fresh_invariant (config : SyncConfig) {bits : Nat} (small : bits ≤ 56) :
    (fresh (2 ^ bits)).Invariant config still where
  shape := ⟨bits, small, rfl⟩
  mask := rfl
  metaAgrees := fun _ => vacant_meta config.wyhash
  slotAgrees := fun _ _ _ => Slot.get_mode_empty
  distinct := by
    intro bucket slot other key value otherValue held
    simp [fresh] at held
  home := by
    intro bucket slot key value held
    simp [fresh] at held
  sized := by
    intro bucket slot key value held
    simp [fresh] at held
  accounts := by
    have vacant : (fresh (2 ^ bits)).own still = fun _ => none := by
      funext position
      simp [own, still, fresh, Bucket.slotIndex, Bucket.empty, MetaWord.get_state_empty]
    unfold PoolAccounts
    rw [vacant]
    exact FreeList.accounts_empty _

theorem fresh_rebuilt (config : SyncConfig) {bits : Nat} (small : bits ≤ 56) :
    Rebuilt config (2 ^ bits) [] (fresh (2 ^ bits)) where
  invariant := fresh_invariant config small
  size := rfl
  holds := by simp [entryOf, fresh]

theorem place_entry (invariant : layout.Invariant config still) {bucket : Nat} {slot : Fin 4}
    {key value : Bytes} (small : key.length + value.length < 2 ^ 32)
    (inside : bucket < layout.numBuckets) (vacant : layout.content bucket slot = none)
    (absent : ∀ other otherValue, layout.content bucket other ≠ some (key, otherValue))
    (home : config.bucketIndex (config.hash key).h1 layout.bucketMask = bucket) :
    ∃ data pool, storeEntry (config.hash key) key value ((layout.buckets bucket).slots slot)
        layout.slabPool = some (data, pool) ∧
      Invariant config still (rewrite { layout with slabPool := pool } bucket slot
        ((layout.buckets bucket).place slot (config.hash key).h2 data) (some (key, value))) := by
  have still_update : Function.update still bucket none = still := by simp [still]
  have idle : layout.own still (bucket, slot) = none := by
    have bytes := invariant.slotAgrees bucket slot (by simp [still])
    simp only [SlotAgrees, vacant] at bytes
    rw [own_slab_index invariant (by simp [still]), Slot.slab_index_inline bytes]
  have moves : Moves still bucket slot := by simp [Moves, still]
  by_cases fits : Slot.FitsInline key value
  · refine ⟨((layout.buckets bucket).slots slot).setInline key value, layout.slabPool,
      by simp [storeEntry, fits], ?_⟩
    have written := write_place invariant moves small absent home
      (Slot.set_inline_stores ((layout.buckets bucket).slots slot) layout.slabPool fits)
      (by rw [idle, Slot.slab_index_set_inline _ fits])
    rwa [still_update] at written
  · obtain ⟨idx, grown, entry, allocated, after, found, carries, indexSmall, _⟩ :=
      slab_alloc invariant moves inside idle small
    obtain ⟨stores, index⟩ := set_slab_ready config ((layout.buckets bucket).slots slot)
      found carries indexSmall
    refine ⟨((layout.buckets bucket).slots slot).setSlab (config.hash key).extFpHi
      (config.hash key).extFp idx, grown, by simp [storeEntry, fits, allocated], ?_⟩
    have moving : Moves (Function.update still bucket (some (slot, some idx))) bucket slot := by
      intro place held same
      rw [Function.update_self] at same
      exact (Prod.mk.inj (Option.some.inj same)).1.symm
    have written := write_place after moving small absent home stores
      (by rw [index]; exact own_moving (Function.update_self ..))
    rwa [Function.update_idem, still_update] at written

theorem entry_of_place (layout : Layout) (pool : SlabPool) (bucket : Nat) (slot : Fin 4)
    (written : Bucket) (key value : Bytes) (stamp : SlotTTL) :
    entryOf { rewrite { layout with slabPool := pool } bucket slot written (some (key, value)) with
        epochs := Function.update layout.epochs (bucket * 4 + slot.val) stamp } =
      Function.update layout.entryOf (bucket, slot) (some ⟨key, value, stamp⟩) := by
  funext ⟨other, place⟩
  by_cases same : (other, place) = (bucket, slot)
  · obtain ⟨rfl, rfl⟩ := Prod.mk.inj same
    simp [entryOf, rewrite]
  · have apart : other * 4 + place.val ≠ bucket * 4 + slot.val := by
      intro equal
      apply same
      have slotBound := slot.isLt
      have placeBound := place.isLt
      refine Prod.ext ?_ (Fin.ext ?_)
      · simp only
        omega
      · simp only
        omega
    rw [Function.update_of_ne same]
    by_cases sameBucket : other = bucket
    · subst sameBucket
      have sameSlot : place ≠ slot := fun equal => same (by rw [equal])
      simp only [entryOf, rewrite, Function.update_self, Function.update_of_ne sameSlot,
        Function.update_of_ne apart]
    · simp [entryOf, rewrite, sameBucket, apart]

theorem insert_entry_rebuilt {actual : Nat} {placed : List EntryData}
    (rebuilt : Rebuilt config actual placed layout) (entry : EntryData)
    (absent : ∀ other ∈ placed, other.keyBytes ≠ entry.keyBytes)
    (small : entry.keyBytes.length + entry.valBytes.length < 2 ^ 32)
    (room : ∃ slot, layout.content
      (config.bucketIndex (config.hash entry.keyBytes).h1 layout.bucketMask) slot = none) :
    ∃ next, layout.insertEntry config entry = some (some next) ∧
      Rebuilt config actual (placed ++ [entry]) next := by
  obtain ⟨key, value, stamp⟩ := entry
  simp only at absent small room
  have invariant := rebuilt.invariant
  have inside := index_lt invariant (config.hash key).h1
  have absentHere : ∀ bucket slot otherValue, layout.content bucket slot ≠ some (key, otherValue) := by
    intro bucket slot otherValue held
    exact absent ⟨key, otherValue, layout.epochs (bucket * 4 + slot.val)⟩
      ((rebuilt.holds _).mpr ⟨(bucket, slot), by simp [entryOf, held]⟩) rfl
  cases free : (layout.buckets
      (config.bucketIndex (config.hash key).h1 layout.bucketMask)).metaWord.findFreeSlot with
  | none =>
      obtain ⟨slot, vacant⟩ := room
      have full := (meta_full_iff (invariant.metaAgrees _) slot).mp
        (MetaWord.find_free_slot_none.mp free slot)
      rw [vacant] at full
      exact absurd full (by simp)
  | some slot =>
      generalize bucketEq : config.bucketIndex (config.hash key).h1 layout.bucketMask = bucket at *
      have vacant : layout.content bucket slot = none := by
        have notFull := (MetaWord.find_free_slot_some free).1
        rw [Ne, meta_full_iff (invariant.metaAgrees bucket) slot] at notFull
        simpa using notFull
      obtain ⟨data, pool, stored, written⟩ :=
        place_entry invariant small inside vacant (absentHere bucket) bucketEq
      refine ⟨{ rewrite { layout with slabPool := pool } bucket slot
          ((layout.buckets bucket).place slot (config.hash key).h2 data) (some (key, value)) with
            epochs := Function.update layout.epochs (bucket * 4 + slot.val) stamp },
        by simp [insertEntry, bucketEq, free, stored, rewrite],
        set_epochs written _, rebuilt.size, ?_⟩
      intro entry
      rw [entry_of_place, List.mem_append, List.mem_singleton, rebuilt.holds entry]
      constructor
      · rintro (⟨position, old⟩ | rfl)
        · have different : position ≠ (bucket, slot) := by
            rintro rfl
            simp [entryOf, vacant] at old
          exact ⟨position, by rw [Function.update_of_ne different]; exact old⟩
        · exact ⟨(bucket, slot), Function.update_self ..⟩
      · rintro ⟨position, held⟩
        by_cases same : position = (bucket, slot)
        · rw [same, Function.update_self] at held
          exact Or.inr (Option.some.inj held).symm
        · rw [Function.update_of_ne same] at held
          exact Or.inl ⟨position, held⟩

/-- The old slots of five entries that meet in one new bucket would be five of four. -/
theorem room_left {old : Layout} (oldInvariant : old.Invariant config still)
    (invariant : layout.Invariant config still) {few many : Nat}
    (oldSize : old.numBuckets = 2 ^ few) (size : layout.numBuckets = 2 ^ many) (grows : few ≤ many)
    (source : ∀ bucket slot key value, layout.content bucket slot = some (key, value) →
      ∃ position : Position, old.content position.1 position.2 = some (key, value))
    {key value : Bytes} {position : Position}
    (held : old.content position.1 position.2 = some (key, value))
    (absent : ∀ bucket slot otherValue, layout.content bucket slot ≠ some (key, otherValue)) :
    ∃ slot, layout.content (config.bucketIndex (config.hash key).h1 layout.bucketMask) slot = none := by
  by_contra full
  have full : ∀ slot, layout.content
      (config.bucketIndex (config.hash key).h1 layout.bucketMask) slot ≠ none :=
    fun slot vacant => full ⟨slot, vacant⟩
  have stored : ∀ slot, ∃ name text, layout.content
      (config.bucketIndex (config.hash key).h1 layout.bucketMask) slot = some (name, text) := by
    intro slot
    obtain ⟨pair, here⟩ := Option.ne_none_iff_exists'.mp (full slot)
    exact ⟨pair.1, pair.2, here⟩
  choose name text here using stored
  -- Where each entry of the new bucket came from, and the entry to be placed.
  have origin : ∀ slot, ∃ place, old.content position.1 place = some (name slot, text slot) := by
    intro slot
    obtain ⟨from', held'⟩ := source _ slot _ _ (here slot)
    have newHome := invariant.home _ slot _ _ (here slot)
    have oldHome := oldInvariant.home from'.1 from'.2 _ _ held'
    have ownHome := oldInvariant.home position.1 position.2 _ _ held
    have sameBucket : from'.1 = position.1 := by
      rw [← oldHome, ← ownHome, oldInvariant.mask, oldSize,
        ← config.bucket_index_refines _ grows, ← config.bucket_index_refines _ grows]
      rw [invariant.mask, size] at newHome
      rw [newHome]
    exact ⟨from'.2, by rw [← sameBucket]; exact held'⟩
  choose place came using origin
  let slots : Option (Fin 4) → Fin 4 := fun slot => slot.elim position.2 place
  have injective : Function.Injective slots := by
    intro first second same
    cases first with
    | none =>
        cases second with
        | none => rfl
        | some other =>
            have equal : position.2 = place other := same
            have keys := came other
            rw [← equal, held] at keys
            obtain ⟨sameKey, _⟩ := Prod.mk.inj (Option.some.inj keys)
            exact absurd (here other) (by rw [← sameKey]; exact absent _ _ _)
    | some slot =>
        cases second with
        | none =>
            have equal : place slot = position.2 := same
            have keys := came slot
            rw [equal, held] at keys
            obtain ⟨sameKey, _⟩ := Prod.mk.inj (Option.some.inj keys)
            exact absurd (here slot) (by rw [← sameKey]; exact absent _ _ _)
        | some other =>
            have equal : place slot = place other := same
            have keys := came slot
            rw [equal, came other] at keys
            obtain ⟨sameKey, _⟩ := Prod.mk.inj (Option.some.inj keys)
            have unique := invariant.distinct _ slot other (name slot) (text slot) (text other)
              (here slot) (by rw [← sameKey]; exact here other)
            rw [unique]
  have tooMany := Fintype.card_le_of_injective slots injective
  simp at tooMany

def entries (layout : Layout) : List EntryData :=
  (places layout.numBuckets).filterMap layout.entryOf

theorem mem_entries (invariant : layout.Invariant config still) {entry : EntryData} :
    entry ∈ layout.entries ↔ ∃ position, layout.entryOf position = some entry := by
  rw [entries, List.mem_filterMap]
  constructor
  · rintro ⟨position, _, found⟩
    exact ⟨position, found⟩
  · rintro ⟨⟨bucket, slot⟩, found⟩
    refine ⟨(bucket, slot), mem_places.mpr ?_, found⟩
    obtain ⟨pair, held, _⟩ := Option.map_eq_some_iff.mp found
    exact content_inside invariant held

theorem entry_of_content {position : Position} {entry : EntryData}
    (found : layout.entryOf position = some entry) :
    layout.content position.1 position.2 = some (entry.keyBytes, entry.valBytes) := by
  obtain ⟨pair, held, rfl⟩ := Option.map_eq_some_iff.mp found
  exact held

theorem entries_keys_nodup (invariant : layout.Invariant config still) :
    (layout.entries.map EntryData.keyBytes).Nodup := by
  rw [entries, List.map_filterMap]
  apply List.Nodup.filterMap _ (places_nodup layout.numBuckets)
  intro first second key inFirst inSecond
  obtain ⟨entry, found, rfl⟩ := Option.map_eq_some_iff.mp inFirst
  obtain ⟨other, otherFound, sameKey⟩ := Option.map_eq_some_iff.mp inSecond
  have held := entry_of_content found
  have otherHeld := entry_of_content otherFound
  rw [sameKey] at otherHeld
  exact position_unique invariant held otherHeld

theorem insert_all_rebuilt {old : Layout} (oldInvariant : old.Invariant config still)
    {few many : Nat} (oldSize : old.numBuckets = 2 ^ few) (grows : few ≤ many)
    (placed rest : List EntryData) (rebuilt : Rebuilt config (2 ^ many) placed layout)
    (keys : ((placed ++ rest).map EntryData.keyBytes).Nodup)
    (source : ∀ entry ∈ placed ++ rest, ∃ position, old.entryOf position = some entry) :
    ∃ final, layout.insertAll config rest = some (some final) ∧
      Rebuilt config (2 ^ many) (placed ++ rest) final := by
  induction rest generalizing placed layout with
  | nil => exact ⟨layout, rfl, by simpa using rebuilt⟩
  | cons entry rest induction =>
      obtain ⟨position, found⟩ := source entry (by simp)
      have held := entry_of_content found
      have absent : ∀ other ∈ placed, other.keyBytes ≠ entry.keyBytes := by
        intro other member same
        rw [List.map_append, List.nodup_append] at keys
        exact keys.2.2 other.keyBytes (List.mem_map_of_mem member) entry.keyBytes (by simp) same
      have absentHere : ∀ bucket slot otherValue,
          layout.content bucket slot ≠ some (entry.keyBytes, otherValue) := by
        intro bucket slot otherValue here
        exact absent ⟨entry.keyBytes, otherValue, layout.epochs (bucket * 4 + slot.val)⟩
          ((rebuilt.holds _).mpr ⟨(bucket, slot), by simp [entryOf, here]⟩) rfl
      have room := room_left oldInvariant rebuilt.invariant oldSize rebuilt.size grows
        (fun bucket slot key value here => by
          have member := (rebuilt.holds ⟨key, value, layout.epochs (bucket * 4 + slot.val)⟩).mpr
            ⟨(bucket, slot), by simp [entryOf, here]⟩
          obtain ⟨place, origin⟩ := source _ (List.mem_append_left _ member)
          exact ⟨place, entry_of_content origin⟩) held absentHere
      obtain ⟨next, inserted, after⟩ := insert_entry_rebuilt rebuilt entry absent
        (oldInvariant.sized _ _ _ _ held) room
      obtain ⟨final, done, all⟩ := induction (placed ++ [entry]) after
        (by simpa using keys) (by simpa using source)
      exact ⟨final, by simp [insertAll, inserted, done], by simpa using all⟩

/-- One pass of the retry loop always succeeds, and keeps the stored triples. -/
theorem rehash_spec (invariant : layout.Invariant config still) {few many : Nat}
    (size : layout.numBuckets = 2 ^ few) (grows : few ≤ many) (small : many ≤ 56) :
    ∃ rebuilt, layout.rehash config (2 ^ many) = some (some (rebuilt, layout.entries.length)) ∧
      rebuilt.Invariant config still ∧ rebuilt.numBuckets = 2 ^ many ∧
      rebuilt.entries.Perm layout.entries := by
  have keys := entries_keys_nodup invariant
  obtain ⟨final, inserted, rebuilt⟩ := insert_all_rebuilt invariant size grows [] layout.entries
    (fresh_rebuilt config small) keys (fun entry member => (mem_entries invariant).mp member)
  refine ⟨final, ?_, rebuilt.invariant, rebuilt.size, ?_⟩
  · have collected : layout.collect (places layout.numBuckets) = some layout.entries :=
      collect_eq invariant _
    have possible : ¬ SyncMap.maxBuckets < 2 ^ many :=
      Nat.not_lt.mpr (Nat.pow_le_pow_right (by decide) small)
    simp [rehash, collected, inserted, possible]
  · have nodup := List.Nodup.of_map _ keys
    have newNodup := List.Nodup.of_map _ (entries_keys_nodup rebuilt.invariant)
    rw [List.perm_ext_iff_of_nodup newNodup nodup]
    intro entry
    rw [mem_entries rebuilt.invariant, ← rebuilt.holds entry, List.nil_append]

theorem rehash_oversize (config : SyncConfig) (layout : Layout) {newActual : Nat}
    (tooLarge : SyncMap.maxBuckets < newActual) : layout.rehash config newActual = none := by
  unfold rehash
  cases layout.collect (places layout.numBuckets) with
  | none => rfl
  | some entries => exact if_pos tooLarge

end Layout

end PulseMap
