import PulseMap.Engine.Meta

/-!
The packed word as four records of fields. Reading a word as a state, a fingerprint and a
priority for each slot loses nothing, and every operation on the word is the plain
operation on the records.
-/

namespace PulseMap

/-- The fields of one slot: a priority is four bits of frequency above three of recency. -/
@[ext] structure SlotFields where
  state : BitVec 2
  h2 : BitVec 7
  priority : BitVec 7
deriving DecidableEq

namespace SlotFields

def slotState (self : SlotFields) : SlotState := SlotState.fromBits (self.state.setWidth 8)

def frequency (self : SlotFields) : Nat := self.priority.toNat / 8

def recency (self : SlotFields) : Nat := self.priority.toNat % 8

def withPriority (self : SlotFields) (frequency recency : Nat) : SlotFields :=
  { self with priority := BitVec.ofNat 7 (8 * frequency + recency) }

def accessed (self : SlotFields) : SlotFields := self.withPriority (min 15 (self.frequency + 1)) 7

def aged (self : SlotFields) : SlotFields := self.withPriority self.frequency (self.recency - 1)

end SlotFields

namespace MetaWord

def fields (self : MetaWord) (slot : Fin 4) : SlotFields where
  state := BitField.get self.word (stateShift slot) 2
  h2 := BitField.get self.word (h2Shift slot) 7
  priority := BitField.get self.word (prioShift slot) 7

def putFields (word : Word) (slot : Fin 4) (written : SlotFields) : Word :=
  BitField.put (BitField.put (BitField.put word (stateShift slot) written.state) (h2Shift slot)
    written.h2) (prioShift slot) written.priority

def pack (all : Fin 4 → SlotFields) : MetaWord :=
  ⟨(List.finRange 4).foldl (fun word slot => putFields word slot (all slot)) 0⟩

theorem fields_put (word : Word) (slot other : Fin 4) (written : SlotFields) :
    fields ⟨putFields word slot written⟩ other =
      if other = slot then written else fields ⟨word⟩ other := by
  simp only [fields, putFields]
  split_ifs with same
  · subst same
    ext1
    · simp only
      rw [BitField.get_put_disjoint _ _ _ _ _ (by simp only [prioShift, stateShift]; omega),
        BitField.get_put_disjoint _ _ _ _ _ (by simp only [h2Shift, stateShift]; omega),
        BitField.get_put_same _ _ _ (by simp only [stateShift]; omega)]
    · simp only
      rw [BitField.get_put_disjoint _ _ _ _ _ (by simp only [prioShift, h2Shift]; omega),
        BitField.get_put_same _ _ _ (by simp only [h2Shift]; omega)]
    · exact BitField.get_put_same _ _ _ (by simp only [prioShift]; omega)
  · ext1
    · simp only
      rw [BitField.get_put_disjoint _ _ _ _ _ (by simp only [prioShift, stateShift]; omega),
        BitField.get_put_disjoint _ _ _ _ _ (by simp only [h2Shift, stateShift]; omega),
        BitField.get_put_disjoint _ _ _ _ _ (by simp only [stateShift]; omega)]
    · simp only
      rw [BitField.get_put_disjoint _ _ _ _ _ (by simp only [prioShift, h2Shift]; omega),
        BitField.get_put_disjoint _ _ _ _ _ (by simp only [h2Shift]; omega),
        BitField.get_put_disjoint _ _ _ _ _ (by simp only [stateShift, h2Shift]; omega)]
    · simp only
      rw [BitField.get_put_disjoint _ _ _ _ _ (by simp only [prioShift]; omega),
        BitField.get_put_disjoint _ _ _ _ _ (by simp only [h2Shift, prioShift]; omega),
        BitField.get_put_disjoint _ _ _ _ _ (by simp only [stateShift, prioShift]; omega)]

/-- Any list of distinct slots, by induction on the slots still to write. -/
theorem fields_fold (all : Fin 4 → SlotFields) (slots : List (Fin 4)) (word : Word) (other : Fin 4) :
    fields ⟨slots.foldl (fun word slot => putFields word slot (all slot)) word⟩ other =
      if other ∈ slots then all other else fields ⟨word⟩ other := by
  induction slots generalizing word with
  | nil => simp
  | cons slot rest induction =>
      rw [List.foldl_cons, induction, fields_put]
      by_cases later : other ∈ rest
      · simp [later]
      · by_cases same : other = slot
        · simp [same]
        · simp [later, same]

theorem fields_injective : Function.Injective fields := by
  intro left right same
  have equal : left.word = right.word := by
    apply BitVec.eq_of_getLsbD_eq
    intro index bound
    have bit : ∀ low width, BitField.get left.word low width = BitField.get right.word low width →
        low ≤ index → index < low + width → left.word.getLsbD index = right.word.getLsbD index := by
      intro low width field above below
      have here := congrArg (fun value => value.getLsbD (index - low)) field
      simpa only [BitField.get_bit _ (Nat.sub_lt_left_of_lt_add above below),
        Nat.add_sub_cancel' above] using here
    by_cases prio : index < 28
    · let slot : Fin 4 := ⟨index / 7, by omega⟩
      apply bit (prioShift slot) 7 (congrArg SlotFields.priority (congrFun same slot)) <;>
        simp only [prioShift, slot] <;> omega
    · by_cases print : index < 56
      · let slot : Fin 4 := ⟨(index - 28) / 7, by omega⟩
        apply bit (h2Shift slot) 7 (congrArg SlotFields.h2 (congrFun same slot)) <;>
          simp only [h2Shift, slot] <;> omega
      · let slot : Fin 4 := ⟨(index - 56) / 2, by omega⟩
        apply bit (stateShift slot) 2 (congrArg SlotFields.state (congrFun same slot)) <;>
          simp only [stateShift, slot] <;> omega
  cases left
  cases right
  exact congrArg MetaWord.mk equal

theorem fields_pack (all : Fin 4 → SlotFields) : (pack all).fields = all := by
  funext slot
  rw [pack, fields_fold, if_pos (List.mem_finRange slot)]

def packing : MetaWord ≃ (Fin 4 → SlotFields) where
  toFun := fields
  invFun := pack
  left_inv := fun self => fields_injective (fields_pack self.fields)
  right_inv := fields_pack

/-! ### The getters and setters -/

theorem get_state_fields (self : MetaWord) (slot : Fin 4) :
    self.getState slot = (self.fields slot).slotState := by
  rw [getState, state_bits_eq]
  rfl

theorem get_h2_fields (self : MetaWord) (slot : Fin 4) :
    self.getH2 slot = (self.fields slot).h2.setWidth 8 := get_h2_eq self slot

theorem get_priority_fields (self : MetaWord) (slot : Fin 4) :
    self.getPriority slot = (self.fields slot).priority.setWidth 8 := prio_bits_eq self.word slot

theorem fields_of_put (self : MetaWord) {next : MetaWord} {slot : Fin 4} {written : SlotFields}
    (put : ∀ other, next.fields other = if other = slot then written else self.fields other) :
    next.fields = Function.update self.fields slot written := by
  funext other
  rw [put, Function.update_apply]

theorem fields_set_state (self : MetaWord) (slot : Fin 4) (state : SlotState) :
    (self.setState slot state).fields = Function.update self.fields slot
      { self.fields slot with state := state.toBits.setWidth 2 } := by
  apply fields_of_put
  intro other
  simp only [fields, set_state_word]
  rw [BitField.get_put_disjoint _ _ _ (h2Shift other) _ (by simp only [stateShift, h2Shift]; omega),
    BitField.get_put_disjoint _ _ _ (prioShift other) _
      (by simp only [stateShift, prioShift]; omega)]
  split_ifs with same
  · subst same
    rw [BitField.get_put_same _ _ _ (by simp only [stateShift]; omega)]
  · rw [BitField.get_put_disjoint _ _ _ _ _ (by simp only [stateShift]; omega)]

theorem fields_set_h2 (self : MetaWord) (slot : Fin 4) (h2 : Byte) :
    (self.setH2 slot h2).fields = Function.update self.fields slot
      { self.fields slot with h2 := h2.setWidth 7 } := by
  apply fields_of_put
  intro other
  simp only [fields, set_h2_word]
  rw [BitField.get_put_disjoint _ _ _ (stateShift other) _
      (by simp only [stateShift, h2Shift]; omega),
    BitField.get_put_disjoint _ _ _ (prioShift other) _ (by simp only [h2Shift, prioShift]; omega)]
  split_ifs with same
  · subst same
    rw [BitField.get_put_same _ _ _ (by simp only [h2Shift]; omega)]
  · rw [BitField.get_put_disjoint _ _ _ _ _ (by simp only [h2Shift]; omega)]

theorem fields_with_prio (word : Word) (slot : Fin 4) (prio : Byte) :
    fields ⟨withPrio word slot prio⟩ = Function.update (fields ⟨word⟩) slot
      { fields ⟨word⟩ slot with priority := prio.setWidth 7 } := by
  apply fields_of_put
  intro other
  simp only [fields, with_prio_eq]
  rw [BitField.get_put_disjoint _ _ _ (stateShift other) _
      (by simp only [stateShift, prioShift]; omega),
    BitField.get_put_disjoint _ _ _ (h2Shift other) _ (by simp only [h2Shift, prioShift]; omega)]
  split_ifs with same
  · subst same
    rw [BitField.get_put_same _ _ _ (by simp only [prioShift]; omega)]
  · rw [BitField.get_put_disjoint _ _ _ _ _ (by simp only [prioShift]; omega)]

/-! ### The access update -/

theorem priority_counts (priority : BitVec 7) :
    (boosted (priority.setWidth 8)).setWidth 7 =
        BitVec.ofNat 7 (8 * min 15 (priority.toNat / 8 + 1) + 7) ∧
      (faded (priority.setWidth 8)).setWidth 7 =
        BitVec.ofNat 7 (8 * (priority.toNat / 8) + (priority.toNat % 8 - 1)) := by
  revert priority
  decide +kernel

theorem fields_narrow (self : MetaWord) (slot : Fin 4) :
    self.fields slot = ⟨(stateBits self.word slot).setWidth 2, (self.getH2 slot).setWidth 7,
      (self.getPriority slot).setWidth 7⟩ := by
  rw [state_bits_eq, get_h2_fields, get_priority_fields]
  simp [fields]

theorem fields_on_access (self : MetaWord) (slot other : Fin 4) :
    (self.onAccess slot).fields other =
      if other = slot then (self.fields slot).accessed
      else if (self.fields other).slotState = .full then (self.fields other).aged
      else self.fields other := by
  have states : stateBits (self.onAccess slot).word other = stateBits self.word other := by
    simp only [onAccess, accessedWord]
    rw [(decay_fold slot other _ (List.nodup_finRange 4) _).1, state_bits_with_prio]
  have before := fields_narrow self other
  rw [fields_narrow, states, get_h2_on_access, get_priority_on_access, get_state_fields]
  split_ifs with same full
  · subst same
    ext1
    · exact (congrArg SlotFields.state before).symm
    · exact (congrArg SlotFields.h2 before).symm
    · simp only
      rw [get_priority_fields, (priority_counts _).1]
      rfl
  · ext1
    · exact (congrArg SlotFields.state before).symm
    · exact (congrArg SlotFields.h2 before).symm
    · simp only
      rw [get_priority_fields, (priority_counts _).2]
      rfl
  · exact before.symm

theorem fields_on_insert (self : MetaWord) (slot : Fin 4) :
    (self.onInsert slot).fields = Function.update self.fields slot
      ((self.fields slot).withPriority 0 1) :=
  fields_with_prio self.word slot 0x01#8

/-! ### The scans -/

theorem match_mask_iff (self : MetaWord) (h2 : Byte) (index : Nat) :
    (self.matchMask h2).getLsbD index = true ↔
      ∃ slot : Fin 4, slot.val = index ∧ (self.fields slot).slotState = .full ∧
        (self.fields slot).h2 = h2.setWidth 7 := by
  have widened : ∀ print : BitVec 7, print.setWidth 8 = h2 &&& 0x7F#8 ↔ print = h2.setWidth 7 := by
    intro print
    rw [← low_seven_mask]
    constructor
    · intro same
      simpa using congrArg (BitVec.setWidth 7) same
    · exact congrArg (BitVec.setWidth 8)
  have bit : ∀ slot : Fin 4, (self.matchMask h2).getLsbD slot.val = true ↔
      (self.fields slot).slotState = .full ∧ (self.fields slot).h2 = h2.setWidth 7 := by
    intro slot
    rw [(self.match_mask_bit h2 slot).2, get_state_fields, get_h2_fields, decide_eq_true_eq, widened]
  by_cases inside : index < 4
  · rw [show index = (⟨index, inside⟩ : Fin 4).val from rfl, bit]
    constructor
    · exact fun matched => ⟨_, rfl, matched⟩
    · intro ⟨slot, same, matched⟩
      rwa [← Fin.ext same]
  · have small := (self.match_mask_bit h2 0).1
    have clear : (self.matchMask h2).getLsbD index = false := by
      apply Nat.testBit_lt_two_pow
      have low : 2 ^ 4 ≤ 2 ^ index := Nat.pow_le_pow_right (by decide) (by omega)
      exact (BitVec.lt_def.mp small).trans_le low
    rw [clear]
    constructor
    · intro set
      cases set
    · intro ⟨slot, same, _⟩
      exact absurd slot.isLt (by omega)

theorem find_free_slot_iff (self : MetaWord) (slot : Fin 4) :
    self.findFreeSlot = some slot ↔ (self.fields slot).slotState ≠ .full ∧
      ∀ earlier < slot, (self.fields earlier).slotState = .full := by
  simp only [← get_state_fields]
  constructor
  · exact find_free_slot_some
  · intro ⟨free, before⟩
    cases found : self.findFreeSlot with
    | none => exact absurd (find_free_slot_none.mp found slot) free
    | some other =>
        obtain ⟨otherFree, otherBefore⟩ := find_free_slot_some found
        rcases lt_trichotomy other slot with less | same | more
        · exact absurd (before other less) otherFree
        · rw [same]
        · exact absurd (otherBefore slot more) free

/-- The Full slot of least priority, the lowest of several. -/
def Evictable (self : MetaWord) (slot : Fin 4) : Prop :=
  (self.fields slot).slotState = .full ∧ ∀ other, (self.fields other).slotState = .full →
    (self.fields slot).priority ≤ (self.fields other).priority ∧
      (other < slot → (self.fields slot).priority < (self.fields other).priority)

theorem find_evict_target_iff (self : MetaWord) (slot : Fin 4) :
    self.findEvictTarget = some slot ↔ self.Evictable slot := by
  have sound : ∀ found, self.findEvictTarget = some found → self.Evictable found := by
    intro found target
    obtain ⟨full, least⟩ := find_evict_target_some target
    simp only [get_state_fields, get_priority_fields] at full least
    refine ⟨full, ?_⟩
    intro other otherFull
    obtain ⟨low, lower⟩ := least other otherFull
    simp only [BitVec.le_def, BitVec.lt_def, BitVec.toNat_setWidth_of_le (show 7 ≤ 8 by decide)]
      at low lower ⊢
    exact ⟨low, lower⟩
  constructor
  · exact sound slot
  · intro ⟨full, least⟩
    cases found : self.findEvictTarget with
    | none =>
        have none := find_evict_target_none found slot
        rw [get_state_fields] at none
        exact absurd full none
    | some other =>
        obtain ⟨otherFull, otherLeast⟩ := sound other found
        rcases lt_trichotomy other slot with less | same | more
        · exact absurd ((least other otherFull).2 less) (BitVec.not_lt.mpr (otherLeast slot full).1)
        · rw [same]
        · exact absurd ((otherLeast slot full).2 more) (BitVec.not_lt.mpr (least other otherFull).1)

theorem find_evict_target_none_iff (self : MetaWord) :
    self.findEvictTarget = none ↔ ∀ slot, (self.fields slot).slotState ≠ .full := by
  simp only [← get_state_fields]
  constructor
  · exact find_evict_target_none
  · intro none
    cases found : self.findEvictTarget with
    | none => rfl
    | some slot => exact absurd (find_evict_target_some found).1 (none slot)

end MetaWord

/-! ### Sequences of writes -/

inductive FieldWrite where
  | setState (slot : Fin 4) (state : SlotState)
  | setH2 (slot : Fin 4) (h2 : Byte)
  | setPriority (slot : Fin 4) (prio : Byte)

namespace FieldWrite

def apply (self : MetaWord) : FieldWrite → MetaWord
  | setState slot state => self.setState slot state
  | setH2 slot h2 => self.setH2 slot h2
  | setPriority slot prio => self.setPriority slot prio

def state (slot : Fin 4) : FieldWrite → Option SlotState
  | setState other state => if other = slot then some state else none
  | _ => none

def h2 (slot : Fin 4) : FieldWrite → Option Byte
  | setH2 other h2 => if other = slot then some (h2 &&& 0x7F#8) else none
  | _ => none

def priority (slot : Fin 4) : FieldWrite → Option Byte
  | setPriority other prio => if other = slot then some (prio &&& 0x7F#8) else none
  | _ => none

def last {Value : Type} (read : FieldWrite → Option Value) (writes : List FieldWrite) : Option Value :=
  writes.reverse.findSome? read

end FieldWrite

namespace MetaWord

/-- A getter whose value each single write sets or leaves alone returns the last one written. -/
theorem getter_last {Value : Type} (getter : MetaWord → Value) (read : FieldWrite → Option Value)
    (step : ∀ self write, getter (FieldWrite.apply self write) = (read write).getD (getter self))
    (self : MetaWord) (writes : List FieldWrite) :
    getter (writes.foldl FieldWrite.apply self) = (FieldWrite.last read writes).getD (getter self) := by
  induction writes using List.reverseRecOn with
  | nil => rfl
  | append_singleton writes write induction =>
      rw [List.foldl_append, List.foldl_cons, List.foldl_nil, step, FieldWrite.last,
        List.reverse_append, List.reverse_singleton, List.singleton_append, List.findSome?_cons]
      cases written : read write with
      | none => exact induction
      | some value => rfl

theorem get_state_write (self : MetaWord) (slot : Fin 4) (write : FieldWrite) :
    (FieldWrite.apply self write).getState slot =
      (FieldWrite.state slot write).getD (self.getState slot) := by
  cases write with
  | setState other state =>
      simp only [FieldWrite.apply, FieldWrite.state, get_state_set_state, @eq_comm _ slot]
      split_ifs <;> rfl
  | setH2 other h2 => exact get_state_set_h2 self other slot h2
  | setPriority other prio => exact get_state_set_priority self other slot prio

theorem get_h2_write (self : MetaWord) (slot : Fin 4) (write : FieldWrite) :
    (FieldWrite.apply self write).getH2 slot =
      (FieldWrite.h2 slot write).getD (self.getH2 slot) := by
  cases write with
  | setState other state => exact get_h2_set_state self other slot state
  | setH2 other h2 =>
      simp only [FieldWrite.apply, FieldWrite.h2, get_h2_set_h2, @eq_comm _ slot]
      split_ifs <;> rfl
  | setPriority other prio => exact get_h2_set_priority self other slot prio

theorem get_priority_write (self : MetaWord) (slot : Fin 4) (write : FieldWrite) :
    (FieldWrite.apply self write).getPriority slot =
      (FieldWrite.priority slot write).getD (self.getPriority slot) := by
  cases write with
  | setState other state => exact get_priority_set_state self other slot state
  | setH2 other h2 => exact get_priority_set_h2 self other slot h2
  | setPriority other prio =>
      simp only [FieldWrite.apply, FieldWrite.priority, get_priority_set_priority, @eq_comm _ slot]
      split_ifs <;> rfl

/-- The word is its twelve fields, and each operation does to them what it says. -/
structure Packs (self : MetaWord) : Prop where
  states : ∀ slot, self.getState slot = (self.fields slot).slotState
  prints : ∀ slot, self.getH2 slot = (self.fields slot).h2.setWidth 8
  priorities : ∀ slot, self.getPriority slot = (self.fields slot).priority.setWidth 8
  setState : ∀ slot state, (self.setState slot state).fields = Function.update self.fields slot
    { self.fields slot with state := state.toBits.setWidth 2 }
  setH2 : ∀ slot h2, (self.setH2 slot h2).fields = Function.update self.fields slot
    { self.fields slot with h2 := h2.setWidth 7 }
  setPriority : ∀ slot prio, (self.setPriority slot prio).fields = Function.update self.fields slot
    { self.fields slot with priority := prio.setWidth 7 }
  lastState : ∀ writes slot, (writes.foldl FieldWrite.apply self).getState slot =
    (FieldWrite.last (FieldWrite.state slot) writes).getD (self.getState slot)
  lastH2 : ∀ writes slot, (writes.foldl FieldWrite.apply self).getH2 slot =
    (FieldWrite.last (FieldWrite.h2 slot) writes).getD (self.getH2 slot)
  lastPriority : ∀ writes slot, (writes.foldl FieldWrite.apply self).getPriority slot =
    (FieldWrite.last (FieldWrite.priority slot) writes).getD (self.getPriority slot)
  matched : ∀ h2 index, (self.matchMask h2).getLsbD index = true ↔
    ∃ slot : Fin 4, slot.val = index ∧ (self.fields slot).slotState = .full ∧
      (self.fields slot).h2 = h2.setWidth 7
  free : ∀ slot, self.findFreeSlot = some slot ↔ (self.fields slot).slotState ≠ .full ∧
    ∀ earlier < slot, (self.fields earlier).slotState = .full
  noneFree : self.findFreeSlot = none ↔ ∀ slot, (self.fields slot).slotState = .full
  evicted : ∀ slot, self.findEvictTarget = some slot ↔ self.Evictable slot
  noneEvicted : self.findEvictTarget = none ↔ ∀ slot, (self.fields slot).slotState ≠ .full
  access : ∀ slot other, (self.onAccess slot).fields other =
    if other = slot then (self.fields slot).accessed
    else if (self.fields other).slotState = .full then (self.fields other).aged
    else self.fields other
  placed : ∀ slot, (self.onInsert slot).fields = Function.update self.fields slot
    ((self.fields slot).withPriority 0 1)

theorem word_packs_fields (self : MetaWord) :
    packing self = self.fields ∧ packing.symm self.fields = self ∧ self.Packs := by
  refine ⟨rfl, packing.symm_apply_apply self, ?_⟩
  exact
    { states := self.get_state_fields
      prints := self.get_h2_fields
      priorities := self.get_priority_fields
      setState := self.fields_set_state
      setH2 := self.fields_set_h2
      setPriority := fields_with_prio self.word
      lastState := fun writes slot => getter_last (getState · slot) _
        (fun self write => self.get_state_write slot write) self writes
      lastH2 := fun writes slot => getter_last (getH2 · slot) _
        (fun self write => self.get_h2_write slot write) self writes
      lastPriority := fun writes slot => getter_last (getPriority · slot) _
        (fun self write => self.get_priority_write slot write) self writes
      matched := self.match_mask_iff
      free := self.find_free_slot_iff
      noneFree := by
        simp only [← get_state_fields]
        exact find_free_slot_none
      evicted := self.find_evict_target_iff
      noneEvicted := self.find_evict_target_none_iff
      access := self.fields_on_access
      placed := self.fields_on_insert }

end MetaWord

end PulseMap
