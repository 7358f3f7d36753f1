import PulseMap.Engine.Packing
import PulseMap.Library.Unwinding
import PulseMap.Raw.Lifetime
import PulseMap.Raw.Placement

/-!
What a read leaves behind. `peek` leaves nothing and `get` only priorities, and priorities
decide nothing but the victim of an insert into a bucket of live entries. So reads can be
added to a run or left out without a trace in its results until such an insert.
-/

namespace PulseMap

def MetaWord.SameAbove (left right : MetaWord) : Prop :=
  ∀ index, 28 ≤ index → left.word.getLsbD index = right.word.getLsbD index

/-- Equal maps but for the low 28 bits of the metadata words. -/
structure PulseMapRaw.SameButPriorities (left right : PulseMapRaw) : Prop where
  words : ∀ bucket, (left.buckets bucket).metaWord.SameAbove (right.buckets bucket).metaWord
  slots : ∀ bucket, (left.buckets bucket).slots = (right.buckets bucket).slots
  slabPool : left.slabPool = right.slabPool
  numBuckets : left.numBuckets = right.numBuckets
  bucketMask : left.bucketMask = right.bucketMask
  count : left.count = right.count
  evictionCount : left.evictionCount = right.evictionCount
  slotsTtl : left.slotsTtl = right.slotsTtl
  currentEpoch : left.currentEpoch = right.currentEpoch
  defaultTtl : left.defaultTtl = right.defaultTtl

def RawOp.reads : RawOp → Bool
  | get _ => true
  | peek _ => true
  | _ => false

/-- An insert of a key that is not stored into a bucket of four Full slots, none expired at
the epoch of the insert: only here a priority is compared. -/
def PulseMapRaw.crowded (wyhash : Bytes → Word) (map : PulseMapRaw) (op : RawOp) : Bool :=
  match op.insertion with
  | none => false
  | some (key, _, _) =>
      (map.cache.entries key).isNone && decide (∀ slot,
        (map.buckets (map.bucketOf wyhash key)).metaWord.getState slot = .full ∧
          map.tick.isExpired (map.bucketOf wyhash key) slot = false)

namespace MetaWord

variable {left right : MetaWord}

theorem same_above_fields : left.SameAbove right ↔ ∀ slot,
    (left.fields slot).state = (right.fields slot).state ∧
      (left.fields slot).h2 = (right.fields slot).h2 := by
  constructor
  · intro same slot
    constructor
    · ext index bound
      have bit := same (stateShift slot + index) (by simp only [stateShift]; omega)
      simpa only [fields, ← BitVec.getLsbD_eq_getElem, BitField.get_bit _ bound] using bit
    · ext index bound
      have bit := same (h2Shift slot + index) (by simp only [h2Shift]; omega)
      simpa only [fields, ← BitVec.getLsbD_eq_getElem, BitField.get_bit _ bound] using bit
  · intro same index high
    by_cases inside : index < 64
    · by_cases print : index < 56
      · let slot : Fin 4 := ⟨(index - 28) / 7, by omega⟩
        have position : h2Shift slot + (index - h2Shift slot) = index := by
          simp only [h2Shift, slot]
          omega
        have narrow : index - h2Shift slot < 7 := by
          simp only [h2Shift, slot]
          omega
        have bit := congrArg (BitVec.getLsbD · (index - h2Shift slot)) (same slot).2
        simpa only [fields, BitField.get_bit _ narrow, position] using bit
      · let slot : Fin 4 := ⟨(index - 56) / 2, by omega⟩
        have position : stateShift slot + (index - stateShift slot) = index := by
          simp only [stateShift, slot]
          omega
        have narrow : index - stateShift slot < 2 := by
          simp only [stateShift, slot]
          omega
        have bit := congrArg (BitVec.getLsbD · (index - stateShift slot)) (same slot).1
        simpa only [fields, BitField.get_bit _ narrow, position] using bit
    · rw [BitVec.getLsbD_of_ge _ _ (Nat.le_of_not_lt inside),
        BitVec.getLsbD_of_ge _ _ (Nat.le_of_not_lt inside)]

theorem same_above_state (same : left.SameAbove right) (slot : Fin 4) :
    left.getState slot = right.getState slot := by
  rw [get_state_fields, get_state_fields, SlotFields.slotState, SlotFields.slotState,
    (same_above_fields.mp same slot).1]

theorem same_above_h2 (same : left.SameAbove right) (slot : Fin 4) :
    left.getH2 slot = right.getH2 slot := by
  rw [get_h2_fields, get_h2_fields, (same_above_fields.mp same slot).2]

theorem same_above_scan (same : left.SameAbove right) (h2 : Byte) :
    scan (left.matchMask h2) = scan (right.matchMask h2) := by
  simp only [scan_match_mask, same_above_state same, same_above_h2 same]

theorem on_access_above (self : MetaWord) (slot : Fin 4) : self.SameAbove (self.onAccess slot) := by
  refine same_above_fields.mpr fun other => ?_
  rw [fields_on_access]
  split_ifs with own full
  · rw [own]
    exact ⟨rfl, rfl⟩
  · exact ⟨rfl, rfl⟩
  · exact ⟨rfl, rfl⟩

theorem set_state_above (same : left.SameAbove right) (slot : Fin 4) (state : SlotState) :
    (left.setState slot state).SameAbove (right.setState slot state) := by
  refine same_above_fields.mpr fun other => ?_
  rw [fields_set_state, fields_set_state, Function.update_apply, Function.update_apply]
  split_ifs
  · exact ⟨rfl, (same_above_fields.mp same slot).2⟩
  · exact same_above_fields.mp same other

theorem set_h2_above (same : left.SameAbove right) (slot : Fin 4) (h2 : Byte) :
    (left.setH2 slot h2).SameAbove (right.setH2 slot h2) := by
  refine same_above_fields.mpr fun other => ?_
  rw [fields_set_h2, fields_set_h2, Function.update_apply, Function.update_apply]
  split_ifs
  · exact ⟨(same_above_fields.mp same slot).1, rfl⟩
  · exact same_above_fields.mp same other

theorem on_insert_above (same : left.SameAbove right) (slot : Fin 4) :
    (left.onInsert slot).SameAbove (right.onInsert slot) := by
  refine same_above_fields.mpr fun other => ?_
  rw [fields_on_insert, fields_on_insert, Function.update_apply, Function.update_apply]
  split_ifs
  · exact same_above_fields.mp same slot
  · exact same_above_fields.mp same other

theorem same_above_symm (same : left.SameAbove right) : right.SameAbove left :=
  fun index high => (same index high).symm

theorem same_above_trans {last : MetaWord} (first : left.SameAbove right)
    (second : right.SameAbove last) : left.SameAbove last :=
  fun index high => (first index high).trans (second index high)

theorem same_above_access (same : left.SameAbove right) (slot : Fin 4) :
    (left.onAccess slot).SameAbove (right.onAccess slot) :=
  same_above_trans (same_above_symm (on_access_above left slot))
    (same_above_trans same (on_access_above right slot))

end MetaWord

namespace PulseMapRaw

variable {wyhash : Bytes → Word} {left right : PulseMapRaw}

/-! ### What no priority decides -/

theorem alike_symm (alike : left.SameButPriorities right) : right.SameButPriorities left where
  words := fun bucket => MetaWord.same_above_symm (alike.words bucket)
  slots := fun bucket => (alike.slots bucket).symm
  slabPool := alike.slabPool.symm
  numBuckets := alike.numBuckets.symm
  bucketMask := alike.bucketMask.symm
  count := alike.count.symm
  evictionCount := alike.evictionCount.symm
  slotsTtl := alike.slotsTtl.symm
  currentEpoch := alike.currentEpoch.symm
  defaultTtl := alike.defaultTtl.symm

theorem alike_refl (map : PulseMapRaw) : map.SameButPriorities map :=
  ⟨fun _ _ _ => rfl, fun _ => rfl, rfl, rfl, rfl, rfl, rfl, rfl, rfl, rfl⟩

theorem alike_trans {last : PulseMapRaw} (first : left.SameButPriorities right)
    (second : right.SameButPriorities last) : left.SameButPriorities last where
  words := fun bucket => MetaWord.same_above_trans (first.words bucket) (second.words bucket)
  slots := fun bucket => (first.slots bucket).trans (second.slots bucket)
  slabPool := first.slabPool.trans second.slabPool
  numBuckets := first.numBuckets.trans second.numBuckets
  bucketMask := first.bucketMask.trans second.bucketMask
  count := first.count.trans second.count
  evictionCount := first.evictionCount.trans second.evictionCount
  slotsTtl := first.slotsTtl.trans second.slotsTtl
  currentEpoch := first.currentEpoch.trans second.currentEpoch
  defaultTtl := first.defaultTtl.trans second.defaultTtl

theorem alike_bucket_of (alike : left.SameButPriorities right) (key : Bytes) :
    left.bucketOf wyhash key = right.bucketOf wyhash key := by
  rw [bucketOf, bucketOf, alike.bucketMask]

theorem alike_expired (alike : left.SameButPriorities right) (bucket : Nat) (slot : Fin 4) :
    left.isExpired bucket slot = right.isExpired bucket slot := by
  rw [isExpired, isExpired, ttlAt, ttlAt, alike.slotsTtl, alike.defaultTtl, alike.currentEpoch]

theorem alike_tick (alike : left.SameButPriorities right) :
    left.tick.SameButPriorities right.tick :=
  { alike with currentEpoch := congrArg (· + 1) alike.currentEpoch }

theorem find_match_slots {first second : Bucket} (same : first.slots = second.slots)
    (pool : SlabPool) (key : Bytes) (hr : HashResult) (slots : List (Fin 4)) :
    findMatch first pool key hr slots = findMatch second pool key hr slots := by
  induction slots with
  | nil => rfl
  | cons slot rest induction => rw [findMatch, findMatch, same, induction]

theorem alike_locate (alike : left.SameButPriorities right) (key : Bytes) :
    left.locate wyhash key = right.locate wyhash key := by
  rw [locate, locate, alike_bucket_of alike, alike.slabPool, Bucket.candidates, Bucket.candidates,
    MetaWord.same_above_scan (alike.words _)]
  exact find_match_slots (alike.slots _) _ _ _ _

theorem alike_lookup (alike : left.SameButPriorities right) (key : Bytes) :
    left.lookup wyhash key = right.lookup wyhash key := by
  simp only [lookup, alike_locate alike, alike_bucket_of alike, alike_expired alike, alike.slots,
    alike.slabPool]

theorem alike_free (alike : left.SameButPriorities right) (bucket : Nat) :
    left.findFreeOrExpired bucket = right.findFreeOrExpired bucket := by
  simp only [findFreeOrExpired, MetaWord.same_above_state (alike.words bucket), alike_expired alike]

theorem alike_cache (alike : left.SameButPriorities right) : left.cache = right.cache := by
  have entries : left.slotEntry = right.slotEntry := by
    funext bucket slot
    simp only [slotEntry, MetaWord.same_above_state (alike.words bucket), alike.slots,
      alike.slabPool, ttlAt, alike.slotsTtl]
  simp only [cache, bindings, entries, alike.numBuckets, alike.currentEpoch, alike.defaultTtl]

theorem alike_crowded (alike : left.SameButPriorities right) (op : RawOp) :
    left.crowded wyhash op = right.crowded wyhash op := by
  unfold crowded
  cases op.insertion with
  | none => rfl
  | some call =>
      simp only [alike_cache alike, alike_bucket_of alike,
        MetaWord.same_above_state (alike.words _), alike_expired (alike_tick alike)]

/-! ### What every call keeps -/

theorem touch_alike (map : PulseMapRaw) (bucket : Nat) (slot : Fin 4) :
    map.SameButPriorities (map.touch bucket slot) := by
  refine { alike_refl map with words := ?_, slots := ?_ }
  · intro other
    rw [Raw.touch_bucket]
    split_ifs with here
    · rw [here]
      exact MetaWord.on_access_above _ slot
    · exact fun _ _ => rfl
  · intro other
    rw [Raw.touch_bucket]
    split_ifs with here
    · rw [here]
    · rfl

theorem with_bucket_alike (alike : left.SameButPriorities right) (bucket : Nat)
    {first second : Bucket} (words : first.metaWord.SameAbove second.metaWord)
    (slots : first.slots = second.slots) (pool : SlabPool) :
    (left.withBucket bucket first pool).SameButPriorities (right.withBucket bucket second pool) := by
  refine { alike with words := ?_, slots := ?_, slabPool := rfl }
  · intro other
    simp only [withBucket, Function.update_apply]
    split_ifs
    · exact words
    · exact alike.words other
  · intro other
    simp only [withBucket, Function.update_apply]
    split_ifs
    · exact slots
    · exact alike.slots other

theorem stamp_alike (alike : left.SameButPriorities right) (bucket : Nat) (slot : Fin 4)
    (ttl : Word) :
    (left.stampSlotTtl bucket slot ttl).SameButPriorities (right.stampSlotTtl bucket slot ttl) := by
  refine { alike with slotsTtl := ?_ }
  simp only [stampSlotTtl, alike.slotsTtl, alike.currentEpoch]

theorem count_alike (alike : left.SameButPriorities right) (isEviction : Bool) :
    (left.countPlacement isEviction).SameButPriorities (right.countPlacement isEviction) := by
  refine { alike with count := ?_, evictionCount := ?_ }
  · simp only [countPlacement, alike.count]
  · simp only [countPlacement, alike.evictionCount]

theorem update_slot_alike (alike : left.SameButPriorities right) {slot : Fin 4} {key value : Bytes}
    {ttl : Word} {next : PulseMapRaw}
    (updated : left.updateSlot wyhash slot key value ttl = some next) :
    ∃ other, right.updateSlot wyhash slot key value ttl = some other ∧
      next.SameButPriorities other := by
  simp only [updateSlot, Option.bind_eq_bind] at updated ⊢
  rw [← alike_bucket_of alike, ← alike.slabPool, ← alike.slots]
  obtain ⟨⟨data, pool⟩, stored, same⟩ := Option.bind_eq_some_iff.mp updated
  rw [stored]
  cases same
  refine ⟨_, rfl, stamp_alike (with_bucket_alike alike _ ?_ ?_ pool) _ slot ttl⟩
  · exact MetaWord.same_above_access (alike.words _) slot
  · exact congrArg (Function.update · slot data) (alike.slots _)

theorem place_slot_alike (alike : left.SameButPriorities right) {slot : Fin 4} {isEviction : Bool}
    {key value : Bytes} {ttl : Word} {next : PulseMapRaw}
    (placed : left.placeSlot wyhash slot isEviction key value ttl = some next) :
    ∃ other, right.placeSlot wyhash slot isEviction key value ttl = some other ∧
      next.SameButPriorities other := by
  simp only [placeSlot, Option.bind_eq_bind] at placed ⊢
  rw [← alike_bucket_of alike, ← alike.slabPool, ← alike.slots]
  obtain ⟨⟨data, pool⟩, stored, same⟩ := Option.bind_eq_some_iff.mp placed
  rw [stored]
  cases same
  refine ⟨_, rfl, stamp_alike (count_alike (with_bucket_alike alike _ ?_ ?_ pool) isEviction) _ slot
    ttl⟩
  · exact MetaWord.on_insert_above
      (MetaWord.set_h2_above (MetaWord.set_state_above (alike.words _) slot .full) slot _) slot
  · exact congrArg (Function.update · slot data) (alike.slots _)

theorem remove_slot_alike (alike : left.SameButPriorities right) (bucket : Nat) (slot : Fin 4) :
    (left.removeSlot bucket slot).SameButPriorities (right.removeSlot bucket slot) := by
  have words : ((left.buckets bucket).tombstone slot).metaWord.SameAbove
      ((right.buckets bucket).tombstone slot).metaWord :=
    MetaWord.set_state_above (alike.words bucket) slot .tombstone
  have slots : ((left.buckets bucket).tombstone slot).slots =
      ((right.buckets bucket).tombstone slot).slots := by
    rw [Bucket.tombstone, Bucket.tombstone, alike.slots bucket]
  have stored := with_bucket_alike alike bucket words slots
    (freeSlab left.slabPool ((left.buckets bucket).slots slot))
  have pool : freeSlab left.slabPool ((left.buckets bucket).slots slot) =
      freeSlab right.slabPool ((right.buckets bucket).slots slot) := by
    rw [alike.slots, alike.slabPool]
  refine { stored with slabPool := pool, count := ?_ }
  simp only [removeSlot, alike.count]

end PulseMapRaw

namespace Raw

variable {wyhash : Bytes → Word} {left right map : PulseMapRaw} {content : Nat → Content}

/-- An insert that is not crowded finds a slot without comparing priorities. -/
theorem calm_target (invariant : Invariant wyhash left content) {op : RawOp} {key value : Bytes}
    {ttl : Word} (call : op.insertion = some (key, value, ttl))
    (missing : slotOf (content (left.bucketOf wyhash key)) key = none)
    (calm : left.crowded wyhash op = false) :
    ∃ slot, left.tick.findFreeOrExpired (left.bucketOf wyhash key) = some slot := by
  cases found : left.tick.findFreeOrExpired (left.bucketOf wyhash key) with
  | some slot => exact ⟨slot, rfl⟩
  | none =>
      have busy : ∀ slot, (left.buckets (left.bucketOf wyhash key)).metaWord.getState slot = .full ∧
          left.tick.isExpired (left.bucketOf wyhash key) slot = false := by
        intro slot
        have occupied := find_free_or_expired_none found slot
        rw [Reusable, not_or, not_not, Bool.not_eq_true] at occupied
        exact occupied
      have crowded : left.crowded wyhash op = true := by
        simp only [PulseMapRaw.crowded, call, cache_absent invariant missing]
        simpa using busy
      rw [crowded] at calm
      cases calm

theorem insert_alike (invariant : Invariant wyhash left content)
    (alike : left.SameButPriorities right) {op : RawOp} {key value : Bytes} {ttl : Word}
    (call : op.insertion = some (key, value, ttl)) (calm : left.crowded wyhash op = false)
    {next : PulseMapRaw} (inserted : left.insertInternal wyhash key value ttl = some next) :
    ∃ other, right.insertInternal wyhash key value ttl = some other ∧
      next.SameButPriorities other := by
  have ticked := PulseMapRaw.alike_tick alike
  have located := locate_spec (tick_invariant invariant) key
  have also : left.tick.locate wyhash key = right.tick.locate wyhash key :=
    PulseMapRaw.alike_locate ticked key
  rw [PulseMapRaw.insertInternal] at inserted ⊢
  cases found : slotOf (content (left.tick.bucketOf wyhash key)) key with
  | some slot =>
      rw [found] at located
      rw [located] at also
      simp only [located, Option.bind_eq_bind, Option.bind_some] at inserted
      simp only [← also, Option.bind_eq_bind, Option.bind_some]
      exact PulseMapRaw.update_slot_alike ticked inserted
  | none =>
      rw [found] at located
      rw [located] at also
      obtain ⟨slot, free⟩ := calm_target invariant call found calm
      have state := MetaWord.same_above_state (ticked.words (left.bucketOf wyhash key)) slot
      have freeRight := free
      rw [PulseMapRaw.alike_free ticked] at freeRight
      have bucket : right.tick.bucketOf wyhash key = left.bucketOf wyhash key :=
        (PulseMapRaw.alike_bucket_of ticked key).symm
      have here : left.tick.bucketOf wyhash key = left.bucketOf wyhash key := rfl
      simp only [located, Option.bind_eq_bind, Option.bind_some, here, PulseMapRaw.chooseTarget,
        free] at inserted
      simp only [← also, Option.bind_eq_bind, Option.bind_some, bucket, PulseMapRaw.chooseTarget,
        freeRight, ← state]
      exact PulseMapRaw.place_slot_alike ticked inserted

theorem read_leaves (invariant : Invariant wyhash map content) {op : RawOp} (reads : op.reads = true) :
    map.crowded wyhash op = false ∧ ∃ result next, op.apply wyhash map = some (result, next) ∧
      map.SameButPriorities next := by
  cases op with
  | get key =>
      obtain ⟨next, got⟩ := get_visible invariant key
      refine ⟨rfl, _, next, by rw [RawOp.apply, got]; rfl, ?_⟩
      cases looked : map.lookup wyhash key with
      | none => simp [PulseMapRaw.get, looked] at got
      | some answer =>
          cases answer with
          | none =>
              simp only [PulseMapRaw.get, looked, Option.bind_eq_bind, Option.bind_some,
                Option.some.injEq, Prod.mk.injEq] at got
              rw [← got.2]
              exact PulseMapRaw.alike_refl map
          | some found =>
              simp only [PulseMapRaw.get, looked, Option.bind_eq_bind, Option.bind_some,
                Option.some.injEq, Prod.mk.injEq] at got
              rw [← got.2]
              exact PulseMapRaw.touch_alike map _ found.1
  | peek key =>
      exact ⟨rfl, _, map, by rw [RawOp.apply, peek_visible invariant]; rfl,
        PulseMapRaw.alike_refl map⟩
  | insert key value => cases reads
  | insertTtl key value ttl => cases reads
  | remove key => cases reads
  | setTtl ttl => cases reads

theorem apply_alike (invariant : Invariant wyhash left content)
    (alike : left.SameButPriorities right) {op : RawOp} (calm : left.crowded wyhash op = false)
    {result : RawResult} {next : PulseMapRaw} (applied : op.apply wyhash left = some (result, next)) :
    ∃ other, op.apply wyhash right = some (result, other) ∧ next.SameButPriorities other := by
  have insertion : ∀ key value ttl, op.insertion = some (key, value, ttl) →
      ∃ other, op.apply wyhash right = some (result, other) ∧ next.SameButPriorities other := by
    intro key value ttl call
    rw [insert_apply call] at applied ⊢
    obtain ⟨reached, inserted, same⟩ := Option.map_eq_some_iff.mp applied
    cases same
    obtain ⟨other, also, agree⟩ := insert_alike invariant alike call calm inserted
    exact ⟨other, by rw [also]; rfl, agree⟩
  cases op with
  | insert key value => exact insertion key value 0#64 rfl
  | insertTtl key value ttl => exact insertion key value ttl rfl
  | get key =>
      simp only [RawOp.apply, PulseMapRaw.get, PulseMapRaw.alike_lookup alike key] at applied ⊢
      cases looked : right.lookup wyhash key with
      | none => simp [looked] at applied
      | some answer =>
          cases answer with
          | none =>
              simp only [looked, Option.bind_eq_bind, Option.bind_some, Option.map_some,
                Option.some.injEq, Prod.mk.injEq] at applied ⊢
              obtain ⟨rfl, rfl⟩ := applied
              exact ⟨right, ⟨rfl, rfl⟩, alike⟩
          | some found =>
              simp only [looked, Option.bind_eq_bind, Option.bind_some, Option.map_some,
                Option.some.injEq, Prod.mk.injEq] at applied ⊢
              obtain ⟨rfl, rfl⟩ := applied
              refine ⟨_, ⟨rfl, rfl⟩, ?_⟩
              exact PulseMapRaw.alike_trans (PulseMapRaw.alike_symm
                (PulseMapRaw.touch_alike left _ found.1))
                (PulseMapRaw.alike_trans alike (PulseMapRaw.touch_alike right _ found.1))
  | peek key =>
      simp only [RawOp.apply, PulseMapRaw.peek, PulseMapRaw.alike_lookup alike key] at applied ⊢
      obtain ⟨found, looked, same⟩ := Option.map_eq_some_iff.mp applied
      cases same
      exact ⟨right, by rw [looked]; rfl, alike⟩
  | remove key =>
      simp only [RawOp.apply, PulseMapRaw.remove, PulseMapRaw.alike_locate alike key] at applied ⊢
      cases located : right.locate wyhash key with
      | none => simp [located] at applied
      | some answer =>
          cases answer with
          | none =>
              simp only [located, Option.bind_eq_bind, Option.bind_some, Option.map_some,
                Option.some.injEq, Prod.mk.injEq] at applied ⊢
              obtain ⟨rfl, rfl⟩ := applied
              exact ⟨right, ⟨rfl, rfl⟩, alike⟩
          | some slot =>
              simp only [located, Option.bind_eq_bind, Option.bind_some, Option.map_some,
                Option.some.injEq, Prod.mk.injEq] at applied ⊢
              obtain ⟨rfl, rfl⟩ := applied
              refine ⟨_, ⟨rfl, rfl⟩, ?_⟩
              rw [PulseMapRaw.alike_bucket_of alike]
              exact PulseMapRaw.remove_slot_alike alike _ slot
  | setTtl ttl =>
      cases applied
      exact ⟨right.setTtl ttl, rfl, { alike with defaultTtl := rfl }⟩

/-! ### Two runs -/

/-- The common calls of two runs, up to the first crowded insert. -/
def observe (wyhash : Bytes → Word) (map : PulseMapRaw) (calls : List (Bool × RawOp)) :
    Option (List RawResult × PulseMapRaw) :=
  Unwinding.observe (fun map op => op.apply wyhash map) (PulseMapRaw.crowded wyhash) map calls

/-- Two consistent maps that only priorities tell apart. -/
structure Related (wyhash : Bytes → Word) (left right : PulseMapRaw) : Prop where
  first : ∃ content, Invariant wyhash left content
  second : ∃ content, Invariant wyhash right content
  alike : left.SameButPriorities right

theorem reads_unwind (wyhash : Bytes → Word) :
    Unwinding.Unwinds (fun map op => op.apply wyhash map) (PulseMapRaw.crowded wyhash)
      (Related wyhash) (fun op => op.reads = true) RawOp.Sized where
  symmetric := fun related =>
    ⟨related.second, related.first, PulseMapRaw.alike_symm related.alike⟩
  stops := fun related op => PulseMapRaw.alike_crowded related.alike op
  silent := by
    intro left right related op reads
    obtain ⟨content, invariant⟩ := related.first
    obtain ⟨calm, result, next, applied, leaves⟩ := read_leaves invariant reads
    have sized : op.Sized := by
      intro key value ttl call
      cases op <;> cases call <;> cases reads
    obtain ⟨again, reached, after, also, kept, _⟩ := apply_effect invariant op sized
    rw [applied] at also
    cases also
    exact ⟨calm, result, next, applied, ⟨after, kept⟩, related.second,
      PulseMapRaw.alike_trans (PulseMapRaw.alike_symm leaves) related.alike⟩
  common := by
    intro left right related op sized calm
    obtain ⟨content, invariant⟩ := related.first
    obtain ⟨rival, rightInvariant⟩ := related.second
    obtain ⟨result, next, after, applied, kept, _⟩ := apply_effect invariant op sized
    obtain ⟨other, also, agree⟩ := apply_alike invariant related.alike calm applied
    obtain ⟨again, reached, last, same, rightKept, _⟩ := apply_effect rightInvariant op sized
    rw [also] at same
    cases same
    exact ⟨result, next, other, applied, also, ⟨after, kept⟩, ⟨last, rightKept⟩, agree⟩

/-- What the two reads of a key do to a map. -/
structure ReadsLeave (wyhash : Bytes → Word) (map : PulseMapRaw) (key : Bytes)
    (found : Option Bytes) (next : PulseMapRaw) : Prop where
  get : RawOp.apply wyhash map (.get key) = some (.value found, next)
  peek : RawOp.apply wyhash map (.peek key) = some (.value found, map)
  leaves : map.SameButPriorities next
  elsewhere : ∀ bucket, bucket ≠ map.bucketOf wyhash key → next.buckets bucket = map.buckets bucket

theorem reads_leave (invariant : Invariant wyhash map content) (key : Bytes) :
    ∃ found next, ReadsLeave wyhash map key found next := by
  obtain ⟨next, got⟩ := get_visible invariant key
  have applied : RawOp.apply wyhash map (.get key) = some (.value (map.cache.visible key), next) := by
    rw [RawOp.apply, got]
    rfl
  obtain ⟨_, result, reached, again, leaves⟩ :=
    read_leaves invariant (rfl : (RawOp.get key).reads = true)
  rw [applied] at again
  cases again
  refine ⟨map.cache.visible key, next, applied, ?_, leaves, ?_⟩
  · rw [RawOp.apply, peek_visible invariant]
    rfl
  · intro bucket different
    simp only [PulseMapRaw.get, Option.bind_eq_bind] at got
    obtain ⟨found, looked, same⟩ := Option.bind_eq_some_iff.mp got
    cases found with
    | none =>
        obtain rfl : map = next := congrArg Prod.snd (Option.some.inj same)
        rfl
    | some hit =>
        obtain rfl : map.touch (map.bucketOf wyhash key) hit.1 = next :=
          congrArg Prod.snd (Option.some.inj same)
        rw [touch_bucket, if_neg different]

theorem raw_reads_invisible (wyhash : Bytes → Word) (numBuckets : Nat) (bound : numBuckets ≤ 2 ^ 58) :
    (∀ ops : List RawOp, (∀ op ∈ ops, op.Sized) →
      ∃ map, RawOp.run wyhash (PulseMapRaw.new numBuckets) ops = some map ∧
        ∀ key, ∃ found next, ReadsLeave wyhash map key found next) ∧
    ∀ left right : List (Bool × RawOp), (∀ call ∈ left ++ right, call.2.Sized) →
      left.filter Prod.fst = right.filter Prod.fst →
      (∀ call ∈ left ++ right, call.1 = false → call.2.reads = true) →
      ∃ results last final,
        observe wyhash (PulseMapRaw.new numBuckets) left = some (results, last) ∧
        observe wyhash (PulseMapRaw.new numBuckets) right = some (results, final) ∧
        last.SameButPriorities final := by
  have start := new_invariant wyhash numBuckets bound
  constructor
  · intro ops sized
    obtain ⟨map, content, ran, invariant⟩ := run_invariant ops sized start
    exact ⟨map, ran, reads_leave invariant⟩
  · intro left right sized same reads
    obtain ⟨results, last, final, first, second, related⟩ :=
      Unwinding.observe_agree (reads_unwind wyhash) left right
        ⟨⟨_, start⟩, ⟨_, start⟩, PulseMapRaw.alike_refl _⟩ same reads
        (fun call member _ => sized call (List.mem_append_left _ member))
    exact ⟨results, last, final, first, second, related.alike⟩

theorem raw_reads_invisible_one_read :
    ∃ results last final,
      observe (fun _ => 0) (PulseMapRaw.new 1)
        [(true, .insert [1] [2]), (false, .get [1]), (true, .remove [1])] = some (results, last) ∧
      observe (fun _ => 0) (PulseMapRaw.new 1) [(true, .insert [1] [2]), (true, .remove [1])] =
        some (results, final) ∧ last.SameButPriorities final := by
  apply (raw_reads_invisible (fun _ => 0) 1 (by norm_num)).2
  · intro call member
    simp only [List.cons_append, List.nil_append, List.mem_cons, List.not_mem_nil, or_false] at member
    intro key value ttl insertion
    rcases member with rfl | rfl | rfl | rfl | rfl <;> cases insertion <;> decide
  · rfl
  · decide

end Raw

end PulseMap
