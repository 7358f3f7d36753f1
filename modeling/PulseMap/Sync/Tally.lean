import PulseMap.Sync.Located

/-!
Sums over the locked buckets of what their holders owe. An allowed action changes such a
sum by the change of the duty of its own thread only, and the number of Full slots by the
slot it writes.
-/

namespace PulseMap

open Finset

/-! ### Full slots -/

def Bucket.fullSlots (self : Bucket) : Finset (Fin 4) :=
  univ.filter fun slot => self.metaWord.getState slot = .full

namespace Bucket

variable {bucket : Bucket} {slot : Fin 4}

theorem full_on_access :
    Bucket.fullSlots { bucket with metaWord := bucket.metaWord.onAccess slot } =
      bucket.fullSlots := by
  simp [fullSlots]

theorem full_update (data : Slot) : (bucket.update slot data).fullSlots = bucket.fullSlots := by
  simp [fullSlots, update]

theorem full_place (h2 : Byte) (data : Slot) :
    (bucket.place slot h2 data).fullSlots = insert slot bucket.fullSlots := by
  ext other
  by_cases same : other = slot <;> simp [fullSlots, place, same]

theorem full_tombstone : (bucket.tombstone slot).fullSlots = bucket.fullSlots.erase slot := by
  ext other
  by_cases same : other = slot <;> simp [fullSlots, tombstone, same]

end Bucket

namespace Layout

variable {config : SyncConfig} {layout : Layout} {transit : Transit}

def fullSlots (layout : Layout) : Nat :=
  ∑ bucketIdx ∈ range layout.numBuckets, (layout.buckets bucketIdx).fullSlots.card

theorem full_slots_le (layout : Layout) : layout.fullSlots ≤ 4 * layout.numBuckets := by
  calc layout.fullSlots ≤ ∑ _bucketIdx ∈ range layout.numBuckets, 4 :=
        sum_le_sum fun bucketIdx _ => card_le_univ (layout.buckets bucketIdx).fullSlots
    _ = 4 * layout.numBuckets := by simp [mul_comm]

theorem entries_length (invariant : layout.Invariant config transit) :
    layout.entries.length = layout.fullSlots := by
  have inBucket : ∀ bucketIdx, (((List.finRange 4).map (bucketIdx, ·)).filterMap
      layout.entryOf).length = (layout.buckets bucketIdx).fullSlots.card := by
    intro bucketIdx
    have full : ∀ slot, (layout.entryOf (bucketIdx, slot)).isSome =
        decide ((layout.buckets bucketIdx).metaWord.getState slot = .full) := by
      intro slot
      have here := meta_full_iff (invariant.metaAgrees bucketIdx) slot
      simp [entryOf, here]
    rw [List.filterMap_map, List.length_filterMap_eq_countP, Bucket.fullSlots]
    have listed : (univ.filter fun slot =>
        (layout.buckets bucketIdx).metaWord.getState slot = .full).card =
          ((List.finRange 4).filter fun slot =>
            (layout.buckets bucketIdx).metaWord.getState slot = .full).length := rfl
    rw [listed, List.countP_eq_length_filter]
    exact congrArg List.length (List.filter_congr fun slot _ => full slot)
  unfold entries fullSlots places
  induction layout.numBuckets with
  | zero => rfl
  | succ count induction =>
      rw [List.range_succ, List.flatMap_append, List.filterMap_append, List.length_append, induction,
        sum_range_succ, List.flatMap_singleton, inBucket]

theorem full_slots_write (layout : Layout) {bucketIdx : Nat} (inside : bucketIdx < layout.numBuckets)
    (written : Bucket) (other : Layout) (size : other.numBuckets = layout.numBuckets)
    (buckets : other.buckets = Function.update layout.buckets bucketIdx written) :
    (other.fullSlots : Int) - layout.fullSlots =
      written.fullSlots.card - (layout.buckets bucketIdx).fullSlots.card := by
  have member : bucketIdx ∈ range layout.numBuckets := mem_range.mpr inside
  have before := add_sum_erase (range layout.numBuckets)
    (fun index => (layout.buckets index).fullSlots.card) member
  have after := add_sum_erase (range layout.numBuckets)
    (fun index => (other.buckets index).fullSlots.card) member
  have elsewhere : ∑ index ∈ (range layout.numBuckets).erase bucketIdx,
      (other.buckets index).fullSlots.card =
        ∑ index ∈ (range layout.numBuckets).erase bucketIdx,
          (layout.buckets index).fullSlots.card := by
    apply sum_congr rfl
    intro index kept
    rw [buckets, Function.update_of_ne (ne_of_mem_erase kept)]
  have here : other.buckets bucketIdx = written := by rw [buckets, Function.update_self]
  simp only [here] at after
  unfold fullSlots
  rw [size]
  omega

end Layout

/-! ### Sums over the locked buckets -/

/-- What the holder of a bucket owes, in the given measure. -/
def share (weight : Duty → Int) (places : Nat → Standing) (map : SyncMap) (bucketIdx : Nat) : Int :=
  match map.locks bucketIdx with
  | none => 0
  | some thread => weight (places thread).duty

def tally (weight : Duty → Int) (places : Nat → Standing) (map : SyncMap) : Int :=
  ∑ bucketIdx ∈ range map.layout.numBuckets, share weight places map bucketIdx

structure InBuckets (weight : Duty → Int) : Prop where
  clear : weight .clear = 0
  rebuilt : ∀ count, weight (.rebuilt count) = 0

section Tally

variable {config : SyncConfig} {weight : Duty → Int} {places : Nat → Standing}
  {map after : SyncMap} {thread : Nat} {action : SyncAction} {response : action.Response}

theorem share_free {bucketIdx : Nat} (free : map.locks bucketIdx = none) :
    share weight places map bucketIdx = 0 := by
  simp [share, free]

theorem share_held {bucketIdx : Nat} (held : map.locks bucketIdx = some thread) :
    share weight places map bucketIdx = weight (places thread).duty := by
  simp [share, held]

theorem tally_free (free : ∀ bucketIdx, map.locks bucketIdx = none) : tally weight places map = 0 :=
  sum_eq_zero fun bucketIdx _ => share_free (free bucketIdx)

def others (weight : Duty → Int) (places : Nat → Standing) (map : SyncMap) (thread : Nat) : Int :=
  ∑ bucketIdx ∈ range map.layout.numBuckets,
    if map.locks bucketIdx = some thread then 0 else share weight places map bucketIdx

/-- The tally is what the others owe and what the thread owes. -/
theorem tally_split (inBuckets : InBuckets weight) (located : Located places map)
    (invariant : map.Invariant config False) (thread : Nat) :
    tally weight places map = others weight places map thread + weight (places thread).duty := by
  have parts : tally weight places map = others weight places map thread +
      ∑ bucketIdx ∈ range map.layout.numBuckets,
        if map.locks bucketIdx = some thread then weight (places thread).duty else 0 := by
    rw [tally, others, ← sum_add_distrib]
    apply sum_congr rfl
    intro bucketIdx _
    split_ifs with mine
    · rw [share_held mine, zero_add]
    · rw [add_zero]
  rw [parts]
  congr 1
  cases located.shaped thread with
  | inBucket bucketIdx reads duty =>
      have member : .bucket bucketIdx ∈ (places thread).held := by
        rcases reads with held | held
        · rw [show (places thread).held = [.bucket bucketIdx, .shared] from held]
          simp
        · simp [held]
      have mine := (located.inside thread bucketIdx).mp member
      have only : ∀ other, map.locks other = some thread ↔ other = bucketIdx := by
        intro other
        constructor
        · exact fun holds => invariant.single other bucketIdx thread holds mine
        · rintro rfl
          exact mine
      simp only [only]
      rw [sum_ite_eq' (range map.layout.numBuckets) bucketIdx fun _ => weight (places thread).duty,
        if_pos (mem_range.mpr (invariant.locked bucketIdx thread mine).2)]
  | outside final =>
      have free : ∀ bucketIdx, map.locks bucketIdx ≠ some thread :=
        fun bucketIdx => located.unlocked (by simp [final.1])
      simp [free, final.2.2, inBuckets.clear]
  | reading held view duty =>
      have free : ∀ bucketIdx, map.locks bucketIdx ≠ some thread :=
        fun bucketIdx => located.unlocked (by simp [held])
      simp [free, duty, inBuckets.clear]
  | writing held view duty =>
      have free : ∀ bucketIdx, map.locks bucketIdx ≠ some thread :=
        fun bucketIdx => located.unlocked (by simp [held])
      rcases duty with duty | ⟨count, duty⟩
      · simp [free, duty, inBuckets.clear]
      · simp [free, duty, inBuckets.rebuilt]

theorem size_kept (kept : ∀ newActual, action ≠ .rehash newActual)
    (performed : map.perform config thread action = some (response, after)) :
    after.layout.numBuckets = map.layout.numBuckets := by
  cases action with
  | rehash newActual => exact absurd rfl (kept newActual)
  | readLock =>
      simp only [SyncMap.perform] at performed
      split_ifs at performed
      obtain rfl := (Prod.mk.inj (Option.some.inj performed)).2
      rfl
  | writeLock =>
      simp only [SyncMap.perform] at performed
      split_ifs at performed
      obtain rfl := (Prod.mk.inj (Option.some.inj performed)).2
      rfl
  | lockBucket bucketIdx =>
      simp only [SyncMap.perform] at performed
      split_ifs at performed <;> obtain rfl := (Prod.mk.inj (Option.some.inj performed)).2 <;> rfl
  | _ =>
      first
      | exact (perform_quiet (by trivial) performed).numBuckets
      | obtain rfl := (Prod.mk.inj (Option.some.inj performed)).2
        rfl

/-- Only a rebuilt layout has another size; no bucket is locked then. -/
theorem size_act (located : Located places map)
    (exclusive : ∀ writer, map.writer = some writer → map.readers = ∅)
    (allows : (places thread).Allows config action)
    (performed : map.perform config thread action = some (response, after)) :
    after.layout.numBuckets = map.layout.numBuckets ∨
      ∀ bucketIdx, map.locks bucketIdx = none ∧ after.locks bucketIdx = none := by
  by_cases kept : ∀ newActual, action ≠ .rehash newActual
  · exact Or.inl (size_kept kept performed)
  · push Not at kept
    obtain ⟨newActual, rfl⟩ := kept
    have noReaders := exclusive thread (located.writes allows.1)
    simp only [SyncMap.perform] at performed
    split at performed <;> obtain rfl := (Prod.mk.inj (Option.some.inj performed)).2
    · exact Or.inl rfl
    · exact Or.inl rfl
    · exact Or.inr fun bucketIdx => ⟨located.still noReaders bucketIdx, rfl⟩

theorem tally_act (inBuckets : InBuckets weight) (located : Located places map)
    (invariant : map.Invariant config False) (later : after.Invariant config False)
    (allows : (places thread).Allows config action)
    (performed : map.perform config thread action = some (response, after)) :
    tally weight (Function.update places thread ((places thread).next action response)) after =
      tally weight places map + weight ((places thread).next action response).duty -
        weight (places thread).duty := by
  have exclusive := fun writer writes => invariant.exclusive writer writes
  have spares := spares_act located exclusive allows performed
  have moved := located_act located exclusive allows performed
  rw [tally_split inBuckets located invariant thread, tally_split inBuckets moved later thread,
    Function.update_self]
  have same : others weight
      (Function.update places thread ((places thread).next action response)) after thread =
      others weight places map thread := by
    rcases size_act located exclusive allows performed with size | free
    · unfold others
      rw [size]
      apply sum_congr rfl
      intro bucketIdx _
      cases holder : map.locks bucketIdx with
      | none =>
          cases held : after.locks bucketIdx with
          | none => simp [share, holder, held]
          | some other =>
              by_cases mine : other = thread
              · simp [share, holder, mine]
              · have before := (spares.locks other mine bucketIdx).mp held
                rw [holder] at before
                cases before
      | some other =>
          by_cases mine : other = thread
          · subst mine
            cases held : after.locks bucketIdx with
            | none => simp [share, held]
            | some another =>
                by_cases still : another = other
                · simp [still]
                · have before := (spares.locks another still bucketIdx).mp held
                  rw [holder] at before
                  exact absurd (Option.some.inj before).symm still
          · have held := (spares.locks other mine bucketIdx).mpr holder
            simp [share, holder, held, mine]
    · have none : others weight places map thread = 0 :=
        sum_eq_zero fun bucketIdx _ => by simp [share_free (free bucketIdx).1]
      rw [none]
      exact sum_eq_zero fun bucketIdx _ => by simp [share_free (free bucketIdx).2]
  rw [same]
  ring

theorem tally_start (located : Located places map) (idle : (places thread).Idle)
    (call : SyncCall) :
    tally weight (Function.update places thread (.start call)) map = tally weight places map := by
  apply sum_congr rfl
  intro bucketIdx _
  cases holder : map.locks bucketIdx with
  | none => rw [share_free holder, share_free holder]
  | some other =>
      have different : other ≠ thread := by
        rintro rfl
        exact located.unlocked (by simp [idle.1.1]) holder
      rw [share_held holder, share_held holder, Function.update_of_ne different]

end Tally

end PulseMap
