import PulseMap.Raw.Map

/-!
The invariant of the raw map and one spec lemma for each call. `content` gives the
pair held by every slot of every bucket; the invariant ties it to the packed words,
the slot bytes, the slab pool and the counter. Each spec lemma runs its call from a
state with the invariant: the call does not panic, and its effect on the content is
a write to one slot of the key's bucket.
-/

namespace PulseMap

open FreeList

/-- The slab index held by each position. -/
def PulseMapRaw.own (self : PulseMapRaw) (position : Position) : Option Nat :=
  (self.buckets position.1).slotIndex position.2

namespace Raw

def fullPositions (numBuckets : Nat) (content : Nat → Content) : Finset Position :=
  (positions numBuckets).filter fun position => (content position.1 position.2).isSome

def writeAt (content : Nat → Content) (bucket : Nat) (slot : Fin 4)
    (entry : Option (Bytes × Bytes)) : Nat → Content :=
  Function.update content bucket (Function.update (content bucket) slot entry)

structure Invariant (wyhash : Bytes → Word) (map : PulseMapRaw) (content : Nat → Content) :
    Prop where
  layout : ∃ bits ≤ 58, map.numBuckets = 2 ^ bits
  mask : map.bucketMask = map.numBuckets - 1
  metaAgrees : ∀ bucket, MetaAgrees wyhash (map.buckets bucket) (content bucket)
  slotAgrees : ∀ bucket slot,
    SlotAgrees wyhash map.slabPool (map.buckets bucket) (content bucket) slot
  distinct : ∀ bucket, Distinct (content bucket)
  home : ∀ bucket slot key value, content bucket slot = some (key, value) →
    map.bucketOf wyhash key = bucket
  accounts : PoolAccounts map.numBuckets map.own map.slabPool
  counted : map.count = (fullPositions map.numBuckets content).card

section WriteAt

variable {content : Nat → Content} {bucket : Nat} {slot : Fin 4} {entry : Option (Bytes × Bytes)}

@[simp] theorem write_at_same : writeAt content bucket slot entry bucket =
    Function.update (content bucket) slot entry := by
  simp [writeAt]

theorem write_at_other {other : Nat} (different : other ≠ bucket) :
    writeAt content bucket slot entry other = content other := by
  simp [writeAt, different]

theorem write_at_apply (other : Nat) (place : Fin 4) :
    writeAt content bucket slot entry other place =
      if other = bucket ∧ place = slot then entry else content other place := by
  by_cases sameBucket : other = bucket
  · subst sameBucket
    by_cases sameSlot : place = slot
    · simp [sameSlot]
    · simp [sameSlot]
  · simp [write_at_other sameBucket, sameBucket]

theorem full_positions_write (numBuckets : Nat) (inside : bucket < numBuckets) :
    fullPositions numBuckets (writeAt content bucket slot entry) =
      if entry.isSome then insert (bucket, slot) (fullPositions numBuckets content)
      else (fullPositions numBuckets content).erase (bucket, slot) := by
  ext ⟨other, place⟩
  by_cases here : other = bucket ∧ place = slot
  · obtain ⟨rfl, rfl⟩ := here
    cases held : entry <;> simp [fullPositions, mem_positions, inside, write_at_apply]
  · have apart : (other, place) ≠ (bucket, slot) := by
      intro same
      exact here ⟨congrArg Prod.fst same, congrArg Prod.snd same⟩
    cases held : entry <;>
      simp [fullPositions, mem_positions, write_at_apply, here, apart]

end WriteAt

variable {wyhash : Bytes → Word} {map : PulseMapRaw} {content : Nat → Content}

theorem bucket_of_lt (invariant : Invariant wyhash map content) (key : Bytes) :
    map.bucketOf wyhash key < map.numBuckets := by
  obtain ⟨bits, _, layout⟩ := invariant.layout
  have positive : 0 < map.numBuckets := by rw [layout]; positivity
  have bound : map.bucketOf wyhash key ≤ map.numBuckets - 1 := by
    rw [← invariant.mask]
    exact Nat.and_le_right
  omega

theorem layout_bound (invariant : Invariant wyhash map content) : map.numBuckets ≤ 2 ^ 58 := by
  obtain ⟨bits, small, layout⟩ := invariant.layout
  rw [layout]
  exact Nat.pow_le_pow_right (by decide) small

theorem locate_spec (invariant : Invariant wyhash map content) (key : Bytes) :
    map.locate wyhash key = some (slotOf (content (map.bucketOf wyhash key)) key) :=
  find_match_spec (invariant.metaAgrees _) (invariant.slotAgrees _) key

theorem absent_everywhere (invariant : Invariant wyhash map content) {key : Bytes}
    (missing : slotOf (content (map.bucketOf wyhash key)) key = none) (bucket : Nat)
    (slot : Fin 4) (value : Bytes) : content bucket slot ≠ some (key, value) := by
  intro held
  have home := invariant.home bucket slot key value held
  subst home
  exact slot_of_none missing slot value held

theorem own_eq_slab_index (invariant : Invariant wyhash map content) (bucket : Nat)
    (slot : Fin 4) : map.own (bucket, slot) = ((map.buckets bucket).slots slot).slabIndex := by
  have packed := invariant.metaAgrees bucket slot
  have bytes := invariant.slotAgrees bucket slot
  simp only [PulseMapRaw.own, Bucket.slotIndex]
  cases held : content bucket slot with
  | none =>
      simp only [held, SlotAgrees] at packed bytes
      rw [if_neg packed, Slot.slab_index_inline bytes]
  | some pair =>
      simp only [held] at packed
      rw [if_pos packed.1]

/-- One write: the bucket, the pool and the counter may change, everything else of
the invariant is carried over. This is the only place where the parts meet. -/
theorem invariant_write (invariant : Invariant wyhash map content) {next : PulseMapRaw}
    {bucket : Nat} {slot : Fin 4} {written : Bucket} {entry : Option (Bytes × Bytes)}
    (inside : bucket < map.numBuckets)
    (sameLayout : next.numBuckets = map.numBuckets ∧ next.bucketMask = map.bucketMask)
    (buckets : next.buckets = Function.update map.buckets bucket written)
    (slots : ∀ other, other ≠ slot → written.slots other = (map.buckets bucket).slots other)
    (packed : MetaAgrees wyhash written (Function.update (content bucket) slot entry))
    (bytes : SlotAgrees wyhash next.slabPool written (Function.update (content bucket) slot entry)
      slot)
    (kept : ∀ position idx, position ≠ (bucket, slot) → map.own position = some idx →
      next.slabPool.get idx = map.slabPool.get idx)
    (distinct : Distinct (Function.update (content bucket) slot entry))
    (home : ∀ key value, entry = some (key, value) → map.bucketOf wyhash key = bucket)
    (accounts : PoolAccounts map.numBuckets
      (Function.update map.own (bucket, slot) (written.slots slot).slabIndex) next.slabPool)
    (counted : next.count =
      (fullPositions map.numBuckets (writeAt content bucket slot entry)).card) :
    Invariant wyhash next (writeAt content bucket slot entry) := by
  have sameHome : ∀ key, next.bucketOf wyhash key = map.bucketOf wyhash key := by
    intro key
    simp only [PulseMapRaw.bucketOf, sameLayout.2]
  have metaAll : ∀ other, MetaAgrees wyhash (next.buckets other)
      (writeAt content bucket slot entry other) := by
    intro other
    rw [buckets]
    by_cases same : other = bucket
    · subst same
      simpa using packed
    · simpa [same, write_at_other same] using invariant.metaAgrees other
  have slotAll : ∀ other place, SlotAgrees wyhash next.slabPool (next.buckets other)
      (writeAt content bucket slot entry other) place := by
    intro other place
    by_cases here : other = bucket ∧ place = slot
    · obtain ⟨rfl, rfl⟩ := here
      simpa [buckets] using bytes
    · have oldData : (next.buckets other).slots place = (map.buckets other).slots place := by
        rw [buckets]
        by_cases same : other = bucket
        · subst same
          simpa using slots place fun samePlace => here ⟨rfl, samePlace⟩
        · simp [same]
      have old := invariant.slotAgrees other place
      have apart : (other, place) ≠ (bucket, slot) := by
        intro same
        exact here ⟨congrArg Prod.fst same, congrArg Prod.snd same⟩
      simp only [SlotAgrees, write_at_apply, here, if_false, oldData] at old ⊢
      cases held : content other place with
      | none => simpa [held] using old
      | some pair =>
          simp only [held] at old ⊢
          apply Slot.stores_stable old
          intro idx holds
          rw [← own_eq_slab_index invariant other place] at holds
          exact kept (other, place) idx apart holds
  refine ⟨?_, ?_, metaAll, slotAll, ?_, ?_, ?_, ?_⟩
  · rw [sameLayout.1]
    exact invariant.layout
  · rw [sameLayout.1, sameLayout.2]
    exact invariant.mask
  · intro other
    by_cases same : other = bucket
    · subst same
      simpa using distinct
    · simpa [write_at_other same] using invariant.distinct other
  · intro other place key value held
    rw [sameHome]
    rw [write_at_apply] at held
    split_ifs at held with here
    · rw [here.1]
      exact home key value held
    · exact invariant.home other place key value held
  · have sameOwn : next.own =
        Function.update map.own (bucket, slot) (written.slots slot).slabIndex := by
      funext position
      obtain ⟨other, place⟩ := position
      by_cases here : other = bucket ∧ place = slot
      · obtain ⟨rfl, rfl⟩ := here
        have index := bytes
        simp only [SlotAgrees, Function.update_self] at index
        simp only [PulseMapRaw.own, Bucket.slotIndex, buckets, Function.update_self]
        have full := packed place
        simp only [Function.update_self] at full
        cases entry with
        | none =>
            simp only at full index
            rw [if_neg full, Slot.slab_index_inline index]
        | some pair =>
            simp only at full
            rw [if_pos full.1]
      · have apart : (other, place) ≠ (bucket, slot) := by
          intro same
          exact here ⟨congrArg Prod.fst same, congrArg Prod.snd same⟩
        rw [Function.update_of_ne apart]
        simp only [PulseMapRaw.own, buckets]
        by_cases same : other = bucket
        · subst same
          have differs : place ≠ slot := fun samePlace => here ⟨rfl, samePlace⟩
          have before := invariant.metaAgrees other
          have stateSame : written.metaWord.getState place = .full ↔
              (map.buckets other).metaWord.getState place = .full := by
            rw [meta_full_iff packed, meta_full_iff before, Function.update_of_ne differs]
          simp only [Function.update_self, Bucket.slotIndex, slots place differs]
          by_cases full : written.metaWord.getState place = .full
          · rw [if_pos full, if_pos (stateSame.mp full)]
          · rw [if_neg full, if_neg fun old => full (stateSame.mpr old)]
        · simp [same]
    rw [sameOwn, sameLayout.1]
    exact accounts
  · rw [sameLayout.1]
    exact counted

/-! ### The initial map -/

theorem new_invariant (wyhash : Bytes → Word) (numBuckets : Nat) (bound : numBuckets ≤ 2 ^ 58) :
    Invariant wyhash (PulseMapRaw.new numBuckets) fun _ _ => none := by
  refine ⟨next_power_bits bound, rfl, fun _ => vacant_meta wyhash, ?_, ?_, ?_, ?_, ?_⟩
  · intro bucket slot
    exact Slot.get_mode_empty
  · intro bucket slot other key value otherValue held
    simp at held
  · intro bucket slot key value held
    simp at held
  · have vacant : (PulseMapRaw.new numBuckets).own = fun _ => none := by
      funext position
      simp [PulseMapRaw.own, PulseMapRaw.new, Bucket.slotIndex, Bucket.empty,
        MetaWord.get_state_empty]
    rw [vacant]
    exact accounts_empty _
  · simp [PulseMapRaw.new, fullPositions]

/-! ### Slab steps -/

theorem free_slab_get (pool : SlabPool) (slot : Slot) (idx : Nat) :
    (PulseMapRaw.freeSlab pool slot).get idx = pool.get idx := by
  unfold PulseMapRaw.freeSlab
  split_ifs <;> simp

theorem free_slab_accounts {numBuckets : Nat} {own : Position → Option Nat} {pool : SlabPool}
    (accounts : PoolAccounts numBuckets own pool) {position : Position} {slot : Slot}
    (held : own position = slot.slabIndex) :
    PoolAccounts numBuckets (Function.update own position none)
      (PulseMapRaw.freeSlab pool slot) := by
  unfold PulseMapRaw.freeSlab
  split_ifs with mode
  · have index : slot.slabIndex = some slot.slabIdx := by simp [Slot.slabIndex, mode]
    exact pool_free accounts (held.trans index)
  · have index : slot.slabIndex = none := by simp [Slot.slabIndex, mode]
    rw [index] at held
    rw [← held, Function.update_eq_self]
    exact accounts

/-- Release what the slot holds, then store the new pair: the pool side of an update,
of an eviction and (with nothing to release) of a placement. -/
theorem replace_spec (invariant : Invariant wyhash map content) {bucket : Nat} {slot : Fin 4}
    (inside : bucket < map.numBuckets) {pool : SlabPool}
    (released : PoolAccounts map.numBuckets (Function.update map.own (bucket, slot) none) pool)
    (sameEntries : ∀ idx, pool.get idx = map.slabPool.get idx) {key value : Bytes}
    (small : key.length + value.length < 2 ^ 32) (old : Slot) :
    ∃ data grown, storeEntry (computeHash wyhash key) key value old pool = some (data, grown) ∧
      data.Stores wyhash grown key value ∧
      PoolAccounts map.numBuckets (Function.update map.own (bucket, slot) data.slabIndex) grown ∧
      (∀ position idx, position ≠ (bucket, slot) → map.own position = some idx →
        grown.get idx = map.slabPool.get idx) := by
  obtain ⟨data, grown, result, stores, accounts, kept⟩ := store_entry_spec wyhash released
    (layout_bound invariant) (mem_positions.mpr inside) (Function.update_self _ _ _) small old
  refine ⟨data, grown, result, stores, ?_, ?_⟩
  · rwa [Function.update_idem] at accounts
  · intro position idx different holds
    rw [kept position idx (by rw [Function.update_of_ne different]; exact holds), sameEntries]

/-! ### The calls -/

theorem tick_invariant (invariant : Invariant wyhash map content) :
    Invariant wyhash map.tick content :=
  ⟨invariant.layout, invariant.mask, invariant.metaAgrees, invariant.slotAgrees,
    invariant.distinct, invariant.home, invariant.accounts, invariant.counted⟩

theorem set_ttl_invariant (invariant : Invariant wyhash map content) (ttl : Word) :
    Invariant wyhash (map.setTtl ttl) content :=
  ⟨invariant.layout, invariant.mask, invariant.metaAgrees, invariant.slotAgrees,
    invariant.distinct, invariant.home, invariant.accounts, invariant.counted⟩

def afterUpdate (wyhash : Bytes → Word) (map : PulseMapRaw) (slot : Fin 4) (key : Bytes)
    (ttl : Word) (data : Slot) (pool : SlabPool) : PulseMapRaw :=
  (map.withBucket (map.bucketOf wyhash key)
    ((map.buckets (map.bucketOf wyhash key)).update slot data) pool).stampSlotTtl
      (map.bucketOf wyhash key) slot ttl

def afterPlace (wyhash : Bytes → Word) (map : PulseMapRaw) (slot : Fin 4) (isEviction : Bool)
    (key : Bytes) (ttl : Word) (data : Slot) (pool : SlabPool) : PulseMapRaw :=
  ((map.withBucket (map.bucketOf wyhash key)
    ((map.buckets (map.bucketOf wyhash key)).place slot (computeHash wyhash key).h2 data)
    pool).countPlacement isEviction).stampSlotTtl (map.bucketOf wyhash key) slot ttl

section Fields

variable (wyhash : Bytes → Word) (map : PulseMapRaw) (slot : Fin 4) (isEviction : Bool)
  (key : Bytes) (ttl : Word) (data : Slot) (pool : SlabPool) (bucket : Nat)

@[simp] theorem after_update_pool :
    (afterUpdate wyhash map slot key ttl data pool).slabPool = pool := rfl

@[simp] theorem after_place_pool :
    (afterPlace wyhash map slot isEviction key ttl data pool).slabPool = pool := rfl

@[simp] theorem after_place_count :
    (afterPlace wyhash map slot isEviction key ttl data pool).count =
      if isEviction then map.count else map.count + 1 := rfl

theorem after_update_bucket (other : Nat) :
    (afterUpdate wyhash map slot key ttl data pool).buckets other =
      if other = map.bucketOf wyhash key then
        (map.buckets (map.bucketOf wyhash key)).update slot data
      else map.buckets other :=
  Function.update_apply ..

theorem after_place_bucket (other : Nat) :
    (afterPlace wyhash map slot isEviction key ttl data pool).buckets other =
      if other = map.bucketOf wyhash key then
        (map.buckets (map.bucketOf wyhash key)).place slot (computeHash wyhash key).h2 data
      else map.buckets other :=
  Function.update_apply ..

theorem remove_slot_bucket (other : Nat) :
    (map.removeSlot bucket slot).buckets other =
      if other = bucket then (map.buckets bucket).tombstone slot else map.buckets other :=
  Function.update_apply ..

@[simp] theorem remove_slot_count : (map.removeSlot bucket slot).count = map.count - 1 := rfl

@[simp] theorem touch_pool : (map.touch bucket slot).slabPool = map.slabPool := rfl

end Fields

theorem update_slot_spec (invariant : Invariant wyhash map content) {key value old : Bytes}
    {slot : Fin 4} (held : content (map.bucketOf wyhash key) slot = some (key, old))
    (small : key.length + value.length < 2 ^ 32) (ttl : Word) :
    ∃ data pool, map.updateSlot wyhash slot key value ttl =
        some (afterUpdate wyhash map slot key ttl data pool) ∧
      Invariant wyhash (afterUpdate wyhash map slot key ttl data pool)
        (writeAt content (map.bucketOf wyhash key) slot (some (key, value))) := by
  have inside := bucket_of_lt invariant key
  have ownHere := own_eq_slab_index invariant (map.bucketOf wyhash key) slot
  obtain ⟨data, pool, result, stores, accounts, kept⟩ := replace_spec invariant inside
    (free_slab_accounts invariant.accounts ownHere) (free_slab_get _ _) small
    ((map.buckets (map.bucketOf wyhash key)).slots slot)
  refine ⟨data, pool, by simp [PulseMapRaw.updateSlot, result, afterUpdate], ?_⟩
  apply invariant_write invariant inside
  · exact ⟨rfl, rfl⟩
  · rfl
  · intro other different
    simp [Bucket.update, different]
  · exact update_meta (invariant.metaAgrees _) held value data
  · simpa [SlotAgrees, Bucket.update] using stores
  · exact kept
  · apply distinct_update (invariant.distinct _)
    intro other otherValue different stored
    exact different (invariant.distinct _ other slot key otherValue old stored held)
  · intro name stored same
    cases same
    rfl
  · simpa [Bucket.update] using accounts
  · have present : (map.bucketOf wyhash key, slot) ∈ fullPositions map.numBuckets content := by
      simp [fullPositions, mem_positions, inside, held]
    rw [full_positions_write _ inside, Option.isSome_some, if_pos rfl,
      Finset.insert_eq_of_mem present]
    exact invariant.counted

theorem choose_target_spec (map : PulseMapRaw) (bucketIdx : Nat) :
    ∃ slot, map.chooseTarget bucketIdx =
      some (slot, decide ((map.buckets bucketIdx).metaWord.getState slot = .full)) := by
  unfold PulseMapRaw.chooseTarget
  cases free : map.findFreeOrExpired bucketIdx with
  | some slot => exact ⟨slot, rfl⟩
  | none =>
      have allFull : ∀ slot, (map.buckets bucketIdx).metaWord.getState slot = .full := by
        intro slot
        have busy := List.find?_eq_none.mp free slot (List.mem_finRange slot)
        simp only [ne_eq, decide_eq_true_eq, not_or, not_not] at busy
        exact busy.1
      cases evict : (map.buckets bucketIdx).metaWord.findEvictTarget with
      | none => exact absurd (allFull 0) (MetaWord.find_evict_target_none evict 0)
      | some slot => exact ⟨slot, by simp [allFull slot, evict]⟩

theorem place_slot_spec (invariant : Invariant wyhash map content) {key value : Bytes}
    (missing : slotOf (content (map.bucketOf wyhash key)) key = none) (slot : Fin 4)
    {isEviction : Bool} (full : isEviction = decide
      ((map.buckets (map.bucketOf wyhash key)).metaWord.getState slot = .full))
    (small : key.length + value.length < 2 ^ 32) (ttl : Word) :
    ∃ data pool, map.placeSlot wyhash slot isEviction key value ttl =
        some (afterPlace wyhash map slot isEviction key ttl data pool) ∧
      Invariant wyhash (afterPlace wyhash map slot isEviction key ttl data pool)
        (writeAt content (map.bucketOf wyhash key) slot (some (key, value))) := by
  have inside := bucket_of_lt invariant key
  have ownHere := own_eq_slab_index invariant (map.bucketOf wyhash key) slot
  have fullIff := meta_full_iff (invariant.metaAgrees (map.bucketOf wyhash key)) slot
  -- a slot that is not Full holds no index, so nothing is released and nothing is lost
  have released : PoolAccounts map.numBuckets
      (Function.update map.own (map.bucketOf wyhash key, slot) none)
      (if isEviction then
        PulseMapRaw.freeSlab map.slabPool ((map.buckets (map.bucketOf wyhash key)).slots slot)
      else map.slabPool) := by
    cases isEviction with
    | true => simpa using free_slab_accounts invariant.accounts ownHere
    | false =>
        have notFull : ¬(map.buckets (map.bucketOf wyhash key)).metaWord.getState slot = .full := by
          simpa using full
        have idle : map.own (map.bucketOf wyhash key, slot) = none := by
          simp [PulseMapRaw.own, Bucket.slotIndex, notFull]
        rw [← idle, Function.update_eq_self]
        simpa using invariant.accounts
  have sameEntries : ∀ idx, (if isEviction then
        PulseMapRaw.freeSlab map.slabPool ((map.buckets (map.bucketOf wyhash key)).slots slot)
      else map.slabPool).get idx = map.slabPool.get idx := by
    intro idx
    split_ifs <;> simp [free_slab_get]
  obtain ⟨data, pool, result, stores, accounts, kept⟩ := replace_spec invariant inside
    released sameEntries small ((map.buckets (map.bucketOf wyhash key)).slots slot)
  refine ⟨data, pool, by simp [PulseMapRaw.placeSlot, result, afterPlace], ?_⟩
  apply invariant_write invariant inside
  · exact ⟨rfl, rfl⟩
  · rfl
  · intro other different
    simp [Bucket.place, different]
  · exact place_meta (invariant.metaAgrees _) slot key value data
  · simpa [SlotAgrees, Bucket.place] using stores
  · exact kept
  · apply distinct_update (invariant.distinct _)
    intro other otherValue different stored
    exact slot_of_none missing other otherValue stored
  · intro name stored same
    cases same
    rfl
  · simpa [Bucket.place] using accounts
  · rw [full_positions_write _ inside, Option.isSome_some, if_pos rfl]
    have counted := invariant.counted
    cases isEviction with
    | true =>
        have stateFull : (map.buckets (map.bucketOf wyhash key)).metaWord.getState slot = .full := by
          simpa using full.symm
        have present : (map.bucketOf wyhash key, slot) ∈ fullPositions map.numBuckets content := by
          simp [fullPositions, mem_positions, inside, fullIff.mp stateFull]
        rw [Finset.insert_eq_of_mem present]
        simpa using counted
    | false =>
        have notFull : ¬(map.buckets (map.bucketOf wyhash key)).metaWord.getState slot = .full := by
          simpa using full
        have fresh : (map.bucketOf wyhash key, slot) ∉ fullPositions map.numBuckets content := by
          intro member
          exact notFull (fullIff.mpr (Finset.mem_filter.mp member).2)
        rw [Finset.card_insert_of_notMem fresh]
        simpa using counted

theorem remove_spec (invariant : Invariant wyhash map content) {key value : Bytes} {slot : Fin 4}
    (held : content (map.bucketOf wyhash key) slot = some (key, value)) :
    map.remove wyhash key = some (true, map.removeSlot (map.bucketOf wyhash key) slot) ∧
      Invariant wyhash (map.removeSlot (map.bucketOf wyhash key) slot)
        (writeAt content (map.bucketOf wyhash key) slot none) := by
  have inside := bucket_of_lt invariant key
  have ownHere := own_eq_slab_index invariant (map.bucketOf wyhash key) slot
  have found := slot_of_eq (invariant.distinct _) held
  refine ⟨by simp [PulseMapRaw.remove, locate_spec invariant key, found], ?_⟩
  apply invariant_write invariant inside
  · exact ⟨rfl, rfl⟩
  · rfl
  · intro other different
    simp [Bucket.tombstone, different]
  · exact tombstone_meta (invariant.metaAgrees _) slot
  · simp [SlotAgrees, Bucket.tombstone, Slot.clear, Slot.get_mode_empty]
  · intro position idx _ _
    exact free_slab_get _ _ _
  · exact distinct_erase slot (invariant.distinct _)
  · simp
  · have cleared : (((map.buckets (map.bucketOf wyhash key)).tombstone slot).slots slot).slabIndex =
        none := by
      simp [Bucket.tombstone, Slot.clear, Slot.slabIndex, Slot.get_mode_empty]
    rw [cleared]
    exact free_slab_accounts invariant.accounts ownHere
  · have present : (map.bucketOf wyhash key, slot) ∈ fullPositions map.numBuckets content := by
      simp [fullPositions, mem_positions, inside, held]
    rw [full_positions_write _ inside]
    simp only [Option.isSome_none, Bool.false_eq_true, if_false]
    rw [Finset.card_erase_of_mem present, ← invariant.counted, remove_slot_count]

theorem lookup_spec (invariant : Invariant wyhash map content) (key : Bytes) :
    map.lookup wyhash key = some
      (match slotOf (content (map.bucketOf wyhash key)) key with
      | none => none
      | some slot =>
          if map.isExpired (map.bucketOf wyhash key) slot then none
          else (content (map.bucketOf wyhash key) slot).map fun pair => (slot, pair.2)) := by
  simp only [PulseMapRaw.lookup, locate_spec invariant key]
  cases found : slotOf (content (map.bucketOf wyhash key)) key with
  | none => simp
  | some slot =>
      obtain ⟨value, held⟩ := slot_of_some found
      have stores : ((map.buckets (map.bucketOf wyhash key)).slots slot).Stores wyhash
          map.slabPool key value := by
        have bytes := invariant.slotAgrees (map.bucketOf wyhash key) slot
        simpa [SlotAgrees, held] using bytes
      by_cases expired : map.isExpired (map.bucketOf wyhash key) slot
      · simp [expired]
      · simp [expired, held, Slot.stores_value stores]

theorem touch_bucket (map : PulseMapRaw) (bucket : Nat) (slot : Fin 4) (other : Nat) :
    (map.touch bucket slot).buckets other =
      if other = bucket then
        { map.buckets bucket with metaWord := (map.buckets bucket).metaWord.onAccess slot }
      else map.buckets other := by
  by_cases same : other = bucket
  · simp [PulseMapRaw.touch, PulseMapRaw.withBucket, same]
  · simp [PulseMapRaw.touch, PulseMapRaw.withBucket, same]

/-- A hit changes priorities only: no state, fingerprint or slot byte. -/
theorem touch_keeps (map : PulseMapRaw) (bucket : Nat) (slot : Fin 4) (other : Nat)
    (place : Fin 4) :
    ((map.touch bucket slot).buckets other).slots = (map.buckets other).slots ∧
      ((map.touch bucket slot).buckets other).metaWord.getState place =
        (map.buckets other).metaWord.getState place ∧
      ((map.touch bucket slot).buckets other).metaWord.getH2 place =
        (map.buckets other).metaWord.getH2 place := by
  rw [touch_bucket]
  split_ifs with same
  · subst same
    simp
  · simp

theorem touch_invariant (invariant : Invariant wyhash map content) (bucket : Nat) (slot : Fin 4) :
    Invariant wyhash (map.touch bucket slot) content := by
  refine ⟨invariant.layout, invariant.mask, ?_, ?_, invariant.distinct, invariant.home, ?_,
    invariant.counted⟩
  · intro other place
    obtain ⟨_, sameState, sameH2⟩ := touch_keeps map bucket slot other place
    simpa only [sameState, sameH2] using invariant.metaAgrees other place
  · intro other place
    obtain ⟨sameSlots, _, _⟩ := touch_keeps map bucket slot other place
    simpa only [SlotAgrees, sameSlots, touch_pool] using invariant.slotAgrees other place
  · have sameOwn : (map.touch bucket slot).own = map.own := by
      funext position
      obtain ⟨sameSlots, sameState, _⟩ := touch_keeps map bucket slot position.1 position.2
      simp only [PulseMapRaw.own, Bucket.slotIndex, sameState, sameSlots]
    rw [sameOwn]
    exact invariant.accounts

end Raw

end PulseMap
