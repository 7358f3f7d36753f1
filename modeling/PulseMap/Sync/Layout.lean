import PulseMap.Sync.Map

/-!
The invariant of a bucket layout while threads are inside its buckets. `transit` names
for each locked bucket the slot whose slab index is already freed or newly allocated while
its bytes are not rewritten yet; the account of the slab pool counts that index, or its
absence, in place of what the bytes still say.
-/

namespace PulseMap

open FreeList

/-- The slot in transition of each bucket and the index held for it. -/
abbrev Transit := Nat → Option (Fin 4 × Option Nat)

namespace Layout

variable {config : SyncConfig} {layout : Layout} {transit : Transit}

def own (layout : Layout) (transit : Transit) (position : Position) : Option Nat :=
  match transit position.1 with
  | some (moving, held) =>
      if position.2 = moving then held else (layout.buckets position.1).slotIndex position.2
  | none => (layout.buckets position.1).slotIndex position.2

/-- Only this slot of the bucket may be in transition. -/
def Moves (transit : Transit) (bucket : Nat) (slot : Fin 4) : Prop :=
  ∀ moving held, transit bucket = some (moving, held) → moving = slot

structure Invariant (config : SyncConfig) (transit : Transit) (layout : Layout) : Prop where
  shape : ∃ bits ≤ 56, layout.numBuckets = 2 ^ bits
  mask : layout.bucketMask = layout.numBuckets - 1
  metaAgrees : ∀ bucket, MetaAgrees config.wyhash (layout.buckets bucket) (layout.content bucket)
  slotAgrees : ∀ bucket slot, (∀ held, transit bucket ≠ some (slot, held)) →
    SlotAgrees config.wyhash layout.slabPool (layout.buckets bucket) (layout.content bucket) slot
  distinct : ∀ bucket, Distinct (layout.content bucket)
  home : ∀ bucket slot key value, layout.content bucket slot = some (key, value) →
    config.bucketIndex (config.hash key).h1 layout.bucketMask = bucket
  sized : ∀ bucket slot key value, layout.content bucket slot = some (key, value) →
    key.length + value.length < 2 ^ 32
  accounts : PoolAccounts layout.numBuckets (layout.own transit) layout.slabPool

theorem own_settled {position : Position}
    (settled : ∀ held, transit position.1 ≠ some (position.2, held)) :
    layout.own transit position = (layout.buckets position.1).slotIndex position.2 := by
  unfold own
  split
  case h_1 moving held found =>
    rw [if_neg]
    rintro rfl
    exact settled held found
  case h_2 => rfl

theorem own_moving {bucket : Nat} {slot : Fin 4} {held : Option Nat}
    (moving : transit bucket = some (slot, held)) : layout.own transit (bucket, slot) = held := by
  simp [own, moving]

theorem own_set_transit {bucket : Nat} {slot : Fin 4} (moves : Moves transit bucket slot)
    (held : Option Nat) :
    layout.own (Function.update transit bucket (some (slot, held))) =
      Function.update (layout.own transit) (bucket, slot) held := by
  funext ⟨other, place⟩
  by_cases sameBucket : other = bucket
  · subst sameBucket
    by_cases sameSlot : place = slot
    · subst sameSlot
      rw [Function.update_self]
      exact own_moving (Function.update_self ..)
    · have different : (other, place) ≠ (other, slot) := by
        intro same
        exact sameSlot (congrArg Prod.snd same)
      have before : ∀ index, transit other ≠ some (place, index) := fun index found =>
        sameSlot (moves place index found)
      have after : ∀ index, Function.update transit other (some (slot, held)) other ≠
          some (place, index) := by
        intro index found
        rw [Function.update_self] at found
        exact sameSlot (Prod.mk.inj (Option.some.inj found)).1.symm
      rw [Function.update_of_ne different, own_settled after, own_settled before]
  · have different : (other, place) ≠ (bucket, slot) := by
      intro same
      exact sameBucket (congrArg Prod.fst same)
    rw [Function.update_of_ne different]
    simp [own, sameBucket]

/-- The index of a slot is the one in its bytes, Full or not. -/
theorem slot_index_eq {wyhash : Bytes → Word} {pool : SlabPool} {bucket : Bucket}
    {content : Content} {slot : Fin 4} (packed : MetaAgrees wyhash bucket content)
    (bytes : SlotAgrees wyhash pool bucket content slot) :
    bucket.slotIndex slot = (bucket.slots slot).slabIndex := by
  have state := packed slot
  rw [Bucket.slotIndex]
  cases held : content slot with
  | none =>
      simp only [held, SlotAgrees] at state bytes
      rw [if_neg state, Slot.slab_index_inline bytes]
  | some pair =>
      simp only [held] at state
      rw [if_pos state.1]

theorem own_slab_index (invariant : layout.Invariant config transit) {bucket : Nat} {slot : Fin 4}
    (settled : ∀ held, transit bucket ≠ some (slot, held)) :
    layout.own transit (bucket, slot) = ((layout.buckets bucket).slots slot).slabIndex := by
  rw [own_settled settled]
  exact slot_index_eq (invariant.metaAgrees bucket) (invariant.slotAgrees bucket slot settled)

theorem position_unique (invariant : layout.Invariant config transit) {first second : Position}
    {key value other : Bytes} (firstHeld : layout.content first.1 first.2 = some (key, value))
    (secondHeld : layout.content second.1 second.2 = some (key, other)) : first = second := by
  have sameBucket : first.1 = second.1 := by
    rw [← invariant.home first.1 first.2 key value firstHeld,
      invariant.home second.1 second.2 key other secondHeld]
  refine Prod.ext sameBucket ?_
  rw [sameBucket] at firstHeld
  exact invariant.distinct second.1 first.2 second.2 key value other firstHeld secondHeld

theorem bucket_bound (invariant : layout.Invariant config transit) : layout.numBuckets ≤ 2 ^ 56 := by
  obtain ⟨bits, small, shape⟩ := invariant.shape
  rw [shape]
  exact Nat.pow_le_pow_right (by decide) small

theorem full_of_doubled (invariant : layout.Invariant config transit)
    (tooLarge : SyncMap.maxBuckets < layout.numBuckets * 2) :
    layout.numBuckets = SyncMap.maxBuckets := by
  obtain ⟨bits, small, shape⟩ := invariant.shape
  rw [shape, ← Nat.pow_succ] at tooLarge
  have more : 56 < bits + 1 := (Nat.pow_lt_pow_iff_right (by decide)).mp tooLarge
  have largest : bits = 56 := by omega
  rw [shape, largest]
  rfl

theorem index_lt (invariant : layout.Invariant config transit) (hash : Word) :
    config.bucketIndex hash layout.bucketMask < layout.numBuckets := by
  obtain ⟨bits, _, shape⟩ := invariant.shape
  have positive : 0 < layout.numBuckets := by rw [shape]; positivity
  have bound : config.bucketIndex hash layout.bucketMask ≤ layout.bucketMask := Nat.and_le_right
  rw [invariant.mask] at bound ⊢
  omega

/-! ### The slab sections -/

theorem slab_free (invariant : layout.Invariant config transit) {bucket idx : Nat} {slot : Fin 4}
    (moves : Moves transit bucket slot) (held : layout.own transit (bucket, slot) = some idx) :
    Invariant config (Function.update transit bucket (some (slot, none)))
      { layout with slabPool := layout.slabPool.free idx } := by
  refine { invariant with slotAgrees := ?_, accounts := ?_ }
  · intro other place settled
    have before : ∀ index, transit other ≠ some (place, index) := by
      intro index found
      by_cases same : other = bucket
      · subst same
        have isSlot := moves place index found
        subst isSlot
        exact settled none (Function.update_self ..)
      · exact settled index (by rw [Function.update_of_ne same]; exact found)
    have agrees := invariant.slotAgrees other place before
    unfold SlotAgrees at agrees ⊢
    cases content : layout.content other place with
    | none => simpa [content] using agrees
    | some pair =>
        simp only [content] at agrees ⊢
        exact Slot.stores_stable agrees fun _ _ => rfl
  · have freed := pool_free invariant.accounts held
    rw [← own_set_transit moves none] at freed
    exact freed

theorem slab_alloc (invariant : layout.Invariant config transit) {bucket : Nat} {slot : Fin 4}
    (moves : Moves transit bucket slot) (inside : bucket < layout.numBuckets)
    (idle : layout.own transit (bucket, slot) = none) {key value : Bytes}
    (small : key.length + value.length < 2 ^ 32) :
    ∃ idx grown entry, layout.slabPool.alloc key value = some (idx, grown) ∧
      Invariant config (Function.update transit bucket (some (slot, some idx)))
        { layout with slabPool := grown } ∧
      grown.get idx = some entry ∧ entry.Carries key value ∧ idx < 2 ^ 64 ∧
      (∀ position kept, layout.own transit position = some kept →
        grown.get kept = layout.slabPool.get kept) := by
  obtain ⟨idx, grown, entry, allocated, accounts, found, carries, kept⟩ :=
    pool_alloc invariant.accounts (mem_positions.mpr inside) idle small
  rw [← own_set_transit moves (some idx)] at accounts
  have held : layout.own (Function.update transit bucket (some (slot, some idx))) (bucket, slot) =
      some idx := own_moving (Function.update_self ..)
  refine ⟨idx, grown, entry, allocated, ?_, found, carries,
    pool_index_small accounts ((bucket_bound invariant).trans (by decide)) held, kept⟩
  refine { invariant with slotAgrees := ?_, accounts := accounts }
  intro other place settled
  have before : ∀ index, transit other ≠ some (place, index) := by
    intro index moving
    by_cases same : other = bucket
    · subst same
      have isSlot := moves place index moving
      subst isSlot
      exact settled (some idx) (Function.update_self ..)
    · exact settled index (by rw [Function.update_of_ne same]; exact moving)
  have agrees := invariant.slotAgrees other place before
  have index := own_slab_index invariant before
  unfold SlotAgrees at agrees ⊢
  cases content : layout.content other place with
  | none => simpa [content] using agrees
  | some pair =>
      simp only [content] at agrees ⊢
      exact Slot.stores_stable agrees fun used holds => kept (other, place) used (index.trans holds)

theorem set_slab_ready (config : SyncConfig) {pool : SlabPool} {idx : Nat} {entry : SlabEntry} {key value : Bytes}
    (old : Slot) (found : pool.get idx = some entry) (carries : entry.Carries key value)
    (small : idx < 2 ^ 64) :
    (old.setSlab (config.hash key).extFpHi (config.hash key).extFp idx).Stores config.wyhash pool
        key value ∧
      (old.setSlab (config.hash key).extFpHi (config.hash key).extFp idx).slabIndex = some idx :=
  ⟨Slot.set_slab_stores old idx small found carries, Slot.slab_index_set_slab old _ _ idx small⟩

/-! ### Bucket writes -/

/-- One slot of a bucket is rewritten and its transition ends: the bytes now say what the
account says. -/
theorem write_slot (invariant : layout.Invariant config transit) {bucket : Nat} {slot : Fin 4}
    (moves : Moves transit bucket slot) (written : Bucket) (entry : Option (Bytes × Bytes))
    (others : ∀ other, other ≠ slot → written.slots other = (layout.buckets bucket).slots other)
    (packed : MetaAgrees config.wyhash written
      (Function.update (layout.content bucket) slot entry))
    (bytes : SlotAgrees config.wyhash layout.slabPool written
      (Function.update (layout.content bucket) slot entry) slot)
    (account : layout.own transit (bucket, slot) = (written.slots slot).slabIndex)
    (distinct : Distinct (Function.update (layout.content bucket) slot entry))
    (home : ∀ key value, entry = some (key, value) →
      config.bucketIndex (config.hash key).h1 layout.bucketMask = bucket ∧
        key.length + value.length < 2 ^ 32) :
    Invariant config (Function.update transit bucket none)
      { layout with
        buckets := Function.update layout.buckets bucket written
        content := Function.update layout.content bucket
          (Function.update (layout.content bucket) slot entry) } := by
  have besides : ∀ place, place ≠ slot → ∀ held, transit bucket ≠ some (place, held) :=
    fun place different held moving => different (moves place held moving)
  have slotAgrees : ∀ place, SlotAgrees config.wyhash layout.slabPool written
      (Function.update (layout.content bucket) slot entry) place := by
    intro place
    by_cases same : place = slot
    · rw [same]
      exact bytes
    · have before := invariant.slotAgrees bucket place (besides place same)
      unfold SlotAgrees at before ⊢
      rw [Function.update_of_ne same, others place same]
      exact before
  -- Every pair of the new content is the new entry or was there before.
  have pairs : ∀ other place key value, Function.update layout.content bucket
      (Function.update (layout.content bucket) slot entry) other place = some (key, value) →
      (other = bucket ∧ entry = some (key, value)) ∨
        layout.content other place = some (key, value) := by
    intro other place key value held
    by_cases same : other = bucket
    · subst same
      rw [Function.update_self] at held
      by_cases sameSlot : place = slot
      · rw [sameSlot, Function.update_self] at held
        exact Or.inl ⟨rfl, held⟩
      · rw [Function.update_of_ne sameSlot] at held
        exact Or.inr held
    · rw [Function.update_of_ne same] at held
      exact Or.inr held
  refine { invariant with
    metaAgrees := ?_, slotAgrees := ?_, distinct := ?_, home := ?_, sized := ?_, accounts := ?_ }
  · intro other
    by_cases same : other = bucket
    · subst same
      simpa using packed
    · simpa [same] using invariant.metaAgrees other
  · intro other place settled
    by_cases same : other = bucket
    · subst same
      simpa using slotAgrees place
    · rw [Function.update_of_ne same] at settled
      simpa [same] using invariant.slotAgrees other place settled
  · intro other
    by_cases same : other = bucket
    · subst same
      simpa using distinct
    · simpa [same] using invariant.distinct other
  · intro other place key value held
    rcases pairs other place key value held with ⟨rfl, new⟩ | old
    · exact (home key value new).1
    · exact invariant.home other place key value old
  · intro other place key value held
    rcases pairs other place key value held with ⟨_, new⟩ | old
    · exact (home key value new).2
    · exact invariant.sized other place key value old
  · have unchanged : own { layout with
        buckets := Function.update layout.buckets bucket written
        content := Function.update layout.content bucket
          (Function.update (layout.content bucket) slot entry) }
        (Function.update transit bucket none) = layout.own transit := by
      funext ⟨other, place⟩
      by_cases same : other = bucket
      · subst same
        rw [own_settled (by simp)]
        simp only [Function.update_self]
        rw [slot_index_eq packed (slotAgrees place)]
        by_cases sameSlot : place = slot
        · rw [sameSlot, account]
        · rw [others place sameSlot, own_slab_index invariant (besides place sameSlot)]
      · simp [own, same]
    unfold PoolAccounts
    rw [unchanged]
    exact invariant.accounts

section Writes

variable {bucket : Nat} {slot : Fin 4} {key value : Bytes} {data : Slot}

theorem write_update (invariant : layout.Invariant config transit) (moves : Moves transit bucket slot)
    (small : key.length + value.length < 2 ^ 32)
    {old : Bytes} (held : layout.content bucket slot = some (key, old))
    (stores : data.Stores config.wyhash layout.slabPool key value)
    (account : layout.own transit (bucket, slot) = data.slabIndex) :
    Invariant config (Function.update transit bucket none)
      (layout.rewrite bucket slot ((layout.buckets bucket).update slot data) (some (key, value))) := by
  apply write_slot invariant moves
  · intro other different
    simp [Bucket.update, different]
  · exact update_meta (invariant.metaAgrees bucket) held value data
  · simpa [SlotAgrees, Bucket.update] using stores
  · simpa [Bucket.update] using account
  · apply distinct_update (invariant.distinct bucket)
    intro other otherValue different otherHeld
    exact different (invariant.distinct bucket other slot key otherValue old otherHeld held)
  · intro name content same
    obtain ⟨rfl, rfl⟩ := Prod.mk.inj (Option.some.inj same)
    exact ⟨invariant.home bucket slot key old held, small⟩

theorem write_place (invariant : layout.Invariant config transit) (moves : Moves transit bucket slot)
    (small : key.length + value.length < 2 ^ 32)
    (absent : ∀ other otherValue, layout.content bucket other ≠ some (key, otherValue))
    (home : config.bucketIndex (config.hash key).h1 layout.bucketMask = bucket)
    (stores : data.Stores config.wyhash layout.slabPool key value)
    (account : layout.own transit (bucket, slot) = data.slabIndex) :
    Invariant config (Function.update transit bucket none)
      (layout.rewrite bucket slot ((layout.buckets bucket).place slot (config.hash key).h2 data)
        (some (key, value))) := by
  apply write_slot invariant moves
  · intro other different
    simp [Bucket.place, different]
  · exact place_meta (invariant.metaAgrees bucket) slot key value data
  · simpa [SlotAgrees, Bucket.place] using stores
  · simpa [Bucket.place] using account
  · exact distinct_update (invariant.distinct bucket) (fun other otherValue _ => absent other otherValue)
      value
  · intro name content same
    obtain ⟨rfl, rfl⟩ := Prod.mk.inj (Option.some.inj same)
    exact ⟨home, small⟩

theorem write_tombstone (invariant : layout.Invariant config transit)
    (moves : Moves transit bucket slot) (account : layout.own transit (bucket, slot) = none) :
    Invariant config (Function.update transit bucket none)
      (layout.rewrite bucket slot ((layout.buckets bucket).tombstone slot) none) := by
  have emptied : (((layout.buckets bucket).tombstone slot).slots slot).getMode = 0#8 := by
    simp [Bucket.tombstone, Slot.clear]
    decide
  apply write_slot invariant moves
  · intro other different
    simp [Bucket.tombstone, different]
  · exact tombstone_meta (invariant.metaAgrees bucket) slot
  · simpa [SlotAgrees] using emptied
  · rw [account, Slot.slab_index_inline emptied]
  · exact distinct_erase slot (invariant.distinct bucket)
  · intro name content same
    exact absurd same (by simp)

end Writes

theorem set_epochs (invariant : layout.Invariant config transit) (epochs : Nat → SlotTTL) :
    Invariant config transit { layout with epochs := epochs } := { invariant with }

theorem on_access (invariant : layout.Invariant config transit) (bucket : Nat) (slot : Fin 4) :
    Invariant config transit
      { layout with
        buckets := Function.update layout.buckets bucket
          { layout.buckets bucket with
            metaWord := (layout.buckets bucket).metaWord.onAccess slot } } := by
  have sameIndex : own { layout with
      buckets := Function.update layout.buckets bucket
        { layout.buckets bucket with
          metaWord := (layout.buckets bucket).metaWord.onAccess slot } } transit =
        layout.own transit := by
    funext ⟨other, place⟩
    by_cases same : other = bucket
    · subst same
      simp [own, Bucket.slotIndex]
    · simp [own, same]
  refine { invariant with metaAgrees := ?_, slotAgrees := ?_, accounts := ?_ }
  · intro other place
    have before := invariant.metaAgrees other place
    by_cases same : other = bucket
    · subst same
      simpa using before
    · simpa [same] using before
  · intro other place settled
    have before := invariant.slotAgrees other place settled
    unfold SlotAgrees at before ⊢
    by_cases same : other = bucket
    · subst same
      simpa using before
    · simpa [same] using before
  · unfold PoolAccounts
    rw [sameIndex]
    exact invariant.accounts

end Layout

end PulseMap
