import PulseMap.Library.BitField

/-!
`engine/meta.rs`: one 64-bit word holds, for each of the four slots of a bucket,
a two-bit state (bits 56..63), a seven-bit fingerprint (bits 28..55) and a
seven-bit priority (bits 0..27). Every operation re-derives its own shifts and
masks, as the source does; the lemmas below read them back at field level.
-/

namespace PulseMap

abbrev Byte := BitVec 8
abbrev Word := BitVec 64

/-- `SlotState` of `lib.rs`; the unused bit pattern 3 reads as `Empty`. -/
inductive SlotState where
  | empty
  | full
  | tombstone
deriving DecidableEq, Repr

namespace SlotState

def fromBits (bits : Byte) : SlotState :=
  if bits &&& 0x03#8 = 1#8 then .full
  else if bits &&& 0x03#8 = 2#8 then .tombstone
  else .empty

def toBits : SlotState → Word
  | .empty => 0
  | .full => 1
  | .tombstone => 2

end SlotState

structure MetaWord where
  word : Word
deriving DecidableEq, Repr

namespace MetaWord

def empty : MetaWord := ⟨0⟩

def stateShift (slot : Fin 4) : Nat := 56 + slot.val * 2
def h2Shift (slot : Fin 4) : Nat := 28 + slot.val * 7
def prioShift (slot : Fin 4) : Nat := slot.val * 7

def stateBits (word : Word) (slot : Fin 4) : Byte :=
  ((word >>> stateShift slot) &&& 0x03#64).setWidth 8

def prioBits (word : Word) (slot : Fin 4) : Byte :=
  ((word >>> prioShift slot) &&& 0x7F#64).setWidth 8

def withPrio (word : Word) (slot : Fin 4) (prio : Byte) : Word :=
  (word &&& ~~~(0x7F#64 <<< prioShift slot)) ||| ((prio &&& 0x7F#8).setWidth 64 <<< prioShift slot)

def getState (self : MetaWord) (slot : Fin 4) : SlotState :=
  SlotState.fromBits (stateBits self.word slot)

def setState (self : MetaWord) (slot : Fin 4) (state : SlotState) : MetaWord :=
  ⟨(self.word &&& ~~~(0x03#64 <<< stateShift slot)) ||| (state.toBits <<< stateShift slot)⟩

def getH2 (self : MetaWord) (slot : Fin 4) : Byte :=
  ((self.word >>> h2Shift slot) &&& 0x7F#64).setWidth 8

def setH2 (self : MetaWord) (slot : Fin 4) (h2 : Byte) : MetaWord :=
  ⟨(self.word &&& ~~~(0x7F#64 <<< h2Shift slot)) ||| ((h2 &&& 0x7F#8).setWidth 64 <<< h2Shift slot)⟩

def getPriority (self : MetaWord) (slot : Fin 4) : Byte := prioBits self.word slot

def setPriority (self : MetaWord) (slot : Fin 4) (prio : Byte) : MetaWord :=
  ⟨withPrio self.word slot prio⟩

def matchMaskBranchlessRaw (word : Word) (h2 : Byte) : Byte :=
  let h2 := h2 &&& 0x7F#8
  let s0 := ((word >>> 56) &&& 0x03#64).setWidth 8
  let s1 := ((word >>> 58) &&& 0x03#64).setWidth 8
  let s2 := ((word >>> 60) &&& 0x03#64).setWidth 8
  let s3 := ((word >>> 62) &&& 0x03#64).setWidth 8
  let h0 := ((word >>> 28) &&& 0x7F#64).setWidth 8
  let h1 := ((word >>> 35) &&& 0x7F#64).setWidth 8
  let h2_2 := ((word >>> 42) &&& 0x7F#64).setWidth 8
  let h3 := ((word >>> 49) &&& 0x7F#64).setWidth 8
  let bit (state fingerprint : Byte) : Byte :=
    (BitVec.ofBool (state == 1#8)).setWidth 8 &&& (BitVec.ofBool (fingerprint == h2)).setWidth 8
  bit s0 h0 ||| bit s1 h1 <<< 1 ||| bit s2 h2_2 <<< 2 ||| bit s3 h3 <<< 3

def matchMask (self : MetaWord) (h2 : Byte) : Byte := matchMaskBranchlessRaw self.word h2

def trailingZeros (mask : Byte) : Nat := (List.range 8).findIdx (mask.getLsbD ·)

/-- The slots visited by `while m != 0 { slot_idx = m.trailing_zeros(); m &= m - 1; .. }`.
A mask of four slots needs at most four turns, which is the `fuel`. -/
def scanFuel : Nat → Byte → List (Fin 4)
  | 0, _ => []
  | fuel + 1, mask =>
      if mask = 0 then []
      else Fin.ofNat 4 (trailingZeros mask) :: scanFuel fuel (mask &&& (mask - 1))

def scan (mask : Byte) : List (Fin 4) := scanFuel 4 mask

def findFreeSlot (self : MetaWord) : Option (Fin 4) :=
  (List.finRange 4).find? fun slot =>
    SlotState.fromBits (stateBits self.word slot) ≠ SlotState.full

/-- The running minimum of `find_evict_target`: `(min_prio, min_slot)`. -/
def evictStep (word : Word) (best : Byte × Option (Fin 4)) (slot : Fin 4) :
    Byte × Option (Fin 4) :=
  if SlotState.fromBits (stateBits word slot) = SlotState.full then
    if best.2 = none ∨ prioBits word slot < best.1 then (prioBits word slot, some slot) else best
  else best

def findEvictTarget (self : MetaWord) : Option (Fin 4) :=
  ((List.finRange 4).foldl (evictStep self.word) (0xFF#8, none)).2

/-- The priority written for the accessed slot: frequency up to 15, recency 7. -/
def boosted (prio : Byte) : Byte :=
  let freq := (prio >>> 3) &&& 0x0F#8
  let newFreq := if freq < 15#8 then freq + 1 else 15#8
  (newFreq <<< 3) ||| 0x07#8

/-- The priority written for another Full slot: recency one lower, floored at zero. -/
def decayed (prio : Byte) : Byte := (prio &&& 0x78#8) ||| ((prio &&& 0x07#8) - 1)

def decayStep (slot : Fin 4) (word : Word) (other : Fin 4) : Word :=
  if other ≠ slot then
    if SlotState.fromBits (stateBits word other) = SlotState.full then
      if 0#8 < prioBits word other &&& 0x07#8 then
        withPrio word other (decayed (prioBits word other))
      else word
    else word
  else word

/-- The value one turn of the `on_access` loop computes from its snapshot. -/
def accessedWord (current : Word) (slot : Fin 4) : Word :=
  (List.finRange 4).foldl (decayStep slot)
    (withPrio current slot (boosted (prioBits current slot)))

/-- `on_access` of a caller that meets no contention: its first exchange succeeds. -/
def onAccess (self : MetaWord) (slot : Fin 4) : MetaWord := ⟨accessedWord self.word slot⟩

def onInsert (self : MetaWord) (slot : Fin 4) : MetaWord := self.setPriority slot 0x01#8

/-! ### Field-level reading of the packed word -/

theorem state_bits_eq (word : Word) (slot : Fin 4) :
    stateBits word slot = (BitField.get word (stateShift slot) 2).setWidth 8 :=
  BitField.shift_mask_eq_get word (stateShift slot) 2 8

theorem prio_bits_eq (word : Word) (slot : Fin 4) :
    prioBits word slot = (BitField.get word (prioShift slot) 7).setWidth 8 :=
  BitField.shift_mask_eq_get word (prioShift slot) 7 8

theorem get_h2_eq (self : MetaWord) (slot : Fin 4) :
    self.getH2 slot = (BitField.get self.word (h2Shift slot) 7).setWidth 8 :=
  BitField.shift_mask_eq_get self.word (h2Shift slot) 7 8

theorem low_seven_widen (value : Byte) :
    (value &&& 0x7F#8).setWidth 64 = (value.setWidth 7).setWidth 64 := by
  revert value
  decide

theorem low_seven_mask (value : Byte) : (value.setWidth 7).setWidth 8 = value &&& 0x7F#8 := by
  revert value
  decide

theorem with_prio_eq (word : Word) (slot : Fin 4) (prio : Byte) :
    withPrio word slot prio = BitField.put word (prioShift slot) (prio.setWidth 7) := by
  rw [withPrio, low_seven_widen]
  rfl

theorem set_h2_word (self : MetaWord) (slot : Fin 4) (h2 : Byte) :
    (self.setH2 slot h2).word = BitField.put self.word (h2Shift slot) (h2.setWidth 7) := by
  rw [setH2, low_seven_widen]
  rfl

theorem set_state_word (self : MetaWord) (slot : Fin 4) (state : SlotState) :
    (self.setState slot state).word =
      BitField.put self.word (stateShift slot) (state.toBits.setWidth 2) := by
  cases state <;> rfl

theorem from_bits_to_bits (state : SlotState) :
    SlotState.fromBits ((state.toBits.setWidth 2).setWidth 8) = state := by
  cases state <;> decide

theorem get_state_set_state (self : MetaWord) (slot other : Fin 4) (state : SlotState) :
    (self.setState slot state).getState other =
      if other = slot then state else self.getState other := by
  simp only [getState, state_bits_eq, set_state_word]
  split_ifs with same
  · subst same
    rw [BitField.get_put_same _ _ _ (by simp only [stateShift]; omega), from_bits_to_bits]
  · rw [BitField.get_put_disjoint _ _ _ _ _ (by simp only [stateShift]; omega)]

theorem get_state_set_h2 (self : MetaWord) (slot other : Fin 4) (h2 : Byte) :
    (self.setH2 slot h2).getState other = self.getState other := by
  simp only [getState, state_bits_eq, set_h2_word]
  rw [BitField.get_put_disjoint _ _ _ _ _ (by simp only [stateShift, h2Shift]; omega)]

theorem state_bits_with_prio (word : Word) (slot other : Fin 4) (prio : Byte) :
    stateBits (withPrio word slot prio) other = stateBits word other := by
  simp only [state_bits_eq, with_prio_eq]
  rw [BitField.get_put_disjoint _ _ _ _ _ (by simp only [stateShift, prioShift]; omega)]

theorem get_state_set_priority (self : MetaWord) (slot other : Fin 4) (prio : Byte) :
    (self.setPriority slot prio).getState other = self.getState other := by
  simp only [getState, setPriority, state_bits_with_prio]

theorem get_h2_set_h2 (self : MetaWord) (slot other : Fin 4) (h2 : Byte) :
    (self.setH2 slot h2).getH2 other =
      if other = slot then h2 &&& 0x7F#8 else self.getH2 other := by
  simp only [get_h2_eq, set_h2_word]
  split_ifs with same
  · subst same
    rw [BitField.get_put_same _ _ _ (by simp only [h2Shift]; omega), low_seven_mask]
  · rw [BitField.get_put_disjoint _ _ _ _ _ (by simp only [h2Shift]; omega)]

theorem get_h2_set_state (self : MetaWord) (slot other : Fin 4) (state : SlotState) :
    (self.setState slot state).getH2 other = self.getH2 other := by
  simp only [get_h2_eq, set_state_word]
  rw [BitField.get_put_disjoint _ _ _ _ _ (by simp only [stateShift, h2Shift]; omega)]

theorem get_h2_with_prio (word : Word) (slot other : Fin 4) (prio : Byte) :
    (MetaWord.mk (withPrio word slot prio)).getH2 other = (MetaWord.mk word).getH2 other := by
  simp only [get_h2_eq, with_prio_eq]
  rw [BitField.get_put_disjoint _ _ _ _ _ (by simp only [prioShift, h2Shift]; omega)]

theorem get_h2_set_priority (self : MetaWord) (slot other : Fin 4) (prio : Byte) :
    (self.setPriority slot prio).getH2 other = self.getH2 other :=
  get_h2_with_prio self.word slot other prio

theorem prio_bits_with_prio (word : Word) (slot other : Fin 4) (prio : Byte) :
    prioBits (withPrio word slot prio) other =
      if other = slot then prio &&& 0x7F#8 else prioBits word other := by
  simp only [prio_bits_eq, with_prio_eq]
  split_ifs with same
  · subst same
    rw [BitField.get_put_same _ _ _ (by simp only [prioShift]; omega), low_seven_mask]
  · rw [BitField.get_put_disjoint _ _ _ _ _ (by simp only [prioShift]; omega)]

theorem get_priority_set_priority (self : MetaWord) (slot other : Fin 4) (prio : Byte) :
    (self.setPriority slot prio).getPriority other =
      if other = slot then prio &&& 0x7F#8 else self.getPriority other :=
  prio_bits_with_prio self.word slot other prio

theorem get_priority_set_state (self : MetaWord) (slot other : Fin 4) (state : SlotState) :
    (self.setState slot state).getPriority other = self.getPriority other := by
  simp only [getPriority, prio_bits_eq, set_state_word]
  rw [BitField.get_put_disjoint _ _ _ _ _ (by simp only [stateShift, prioShift]; omega)]

theorem get_priority_set_h2 (self : MetaWord) (slot other : Fin 4) (h2 : Byte) :
    (self.setH2 slot h2).getPriority other = self.getPriority other := by
  simp only [getPriority, prio_bits_eq, set_h2_word]
  rw [BitField.get_put_disjoint _ _ _ _ _ (by simp only [prioShift, h2Shift]; omega)]

attribute [simp] get_state_set_state get_state_set_h2 get_state_set_priority get_h2_set_h2
  get_h2_set_state get_h2_set_priority get_priority_set_priority get_priority_set_state
  get_priority_set_h2

/-! ### The access update -/

def faded (prio : Byte) : Byte := if 0#8 < prio &&& 0x07#8 then decayed prio else prio

def frequency (prio : Byte) : Nat := ((prio >>> 3) &&& 0x0F#8).toNat
def recency (prio : Byte) : Nat := (prio &&& 0x07#8).toNat

theorem boosted_masked (prio : Byte) : boosted prio &&& 0x7F#8 = boosted prio := by
  revert prio
  decide +kernel

theorem decayed_masked (prio : Byte) (positive : 0#8 < prio &&& 0x07#8) :
    decayed prio &&& 0x7F#8 = decayed prio := by
  revert prio
  decide +kernel

theorem frequency_boosted (prio : Byte) : frequency (boosted prio) = min 15 (frequency prio + 1) := by
  revert prio
  decide +kernel

theorem recency_boosted (prio : Byte) : recency (boosted prio) = 7 := by
  revert prio
  decide +kernel

theorem frequency_faded (prio : Byte) : frequency (faded prio) = frequency prio := by
  revert prio
  decide +kernel

theorem recency_faded (prio : Byte) : recency (faded prio) = recency prio - 1 := by
  revert prio
  decide +kernel

theorem state_bits_decay_step (slot other target : Fin 4) (word : Word) :
    stateBits (decayStep slot word target) other = stateBits word other := by
  unfold decayStep
  split_ifs <;> simp only [state_bits_with_prio]

theorem get_h2_decay_step (slot other target : Fin 4) (word : Word) :
    (MetaWord.mk (decayStep slot word target)).getH2 other = (MetaWord.mk word).getH2 other := by
  unfold decayStep
  split_ifs <;> simp only [get_h2_with_prio]

theorem prio_bits_decay_step (slot other target : Fin 4) (word : Word) :
    prioBits (decayStep slot word target) other =
      if other = target ∧ target ≠ slot ∧
          SlotState.fromBits (stateBits word target) = SlotState.full then
        faded (prioBits word target)
      else prioBits word other := by
  unfold decayStep faded
  by_cases same : other = target
  · subst same
    split_ifs with apart full positive <;>
      simp_all [prio_bits_with_prio, decayed_masked]
  · split_ifs <;> simp_all [prio_bits_with_prio]

/-- The decay loop over any list of distinct slots, by induction on the slots still
to visit: each one is faded once if it is another Full slot, the rest is untouched. -/
theorem decay_fold (slot other : Fin 4) (targets : List (Fin 4)) (distinct : targets.Nodup)
    (word : Word) :
    stateBits (targets.foldl (decayStep slot) word) other = stateBits word other ∧
      (MetaWord.mk (targets.foldl (decayStep slot) word)).getH2 other =
        (MetaWord.mk word).getH2 other ∧
      prioBits (targets.foldl (decayStep slot) word) other =
        if other ∈ targets ∧ other ≠ slot ∧
            SlotState.fromBits (stateBits word other) = SlotState.full then
          faded (prioBits word other)
        else prioBits word other := by
  induction targets generalizing word with
  | nil => simp
  | cons target rest induction =>
      obtain ⟨fresh, restDistinct⟩ := List.nodup_cons.mp distinct
      obtain ⟨states, prints, prios⟩ := induction restDistinct (decayStep slot word target)
      rw [state_bits_decay_step] at states prios
      rw [get_h2_decay_step] at prints
      refine ⟨states, prints, ?_⟩
      simp only [List.foldl_cons]
      rw [prios, prio_bits_decay_step]
      by_cases same : other = target
      · subst same
        simp [fresh]
      · simp [same]

theorem get_state_on_access (self : MetaWord) (slot other : Fin 4) :
    (self.onAccess slot).getState other = self.getState other := by
  simp only [getState, onAccess, accessedWord]
  rw [(decay_fold slot other _ (List.nodup_finRange 4) _).1, state_bits_with_prio]

theorem get_h2_on_access (self : MetaWord) (slot other : Fin 4) :
    (self.onAccess slot).getH2 other = self.getH2 other := by
  simp only [onAccess, accessedWord]
  rw [(decay_fold slot other _ (List.nodup_finRange 4) _).2.1, get_h2_with_prio]

theorem get_priority_on_access (self : MetaWord) (slot other : Fin 4) :
    (self.onAccess slot).getPriority other =
      if other = slot then boosted (self.getPriority slot)
      else if self.getState other = SlotState.full then faded (self.getPriority other)
      else self.getPriority other := by
  simp only [getPriority, getState, onAccess, accessedWord]
  rw [(decay_fold slot other _ (List.nodup_finRange 4) _).2.2, state_bits_with_prio,
    prio_bits_with_prio]
  by_cases same : other = slot
  · subst same
    simp [boosted_masked]
  · by_cases full : SlotState.fromBits (stateBits self.word other) = SlotState.full
    · simp [same, full]
    · simp [same, full]

theorem get_state_on_insert (self : MetaWord) (slot other : Fin 4) :
    (self.onInsert slot).getState other = self.getState other := by
  simp [onInsert]

theorem get_h2_on_insert (self : MetaWord) (slot other : Fin 4) :
    (self.onInsert slot).getH2 other = self.getH2 other := by
  simp [onInsert]

theorem get_priority_on_insert (self : MetaWord) (slot other : Fin 4) :
    (self.onInsert slot).getPriority other =
      if other = slot then 0x01#8 else self.getPriority other := by
  simp [onInsert]

attribute [simp] get_state_on_access get_h2_on_access get_state_on_insert get_h2_on_insert
  get_priority_on_insert

theorem get_state_empty (slot : Fin 4) : empty.getState slot = SlotState.empty := by
  revert slot
  decide

/-! ### Scanning -/

theorem full_iff_bits (bits : Byte) (small : bits < 4#8) :
    SlotState.fromBits bits = SlotState.full ↔ bits = 1#8 := by
  revert bits
  decide

theorem state_bits_small (word : Word) (slot : Fin 4) : stateBits word slot < 4#8 := by
  rw [state_bits_eq]
  generalize BitField.get word (stateShift slot) 2 = bits
  revert bits
  decide

theorem mask_bits (b0 b1 b2 b3 c0 c1 c2 c3 : Bool) (slot : Fin 4) :
    let bit (left right : Bool) : Byte :=
      (BitVec.ofBool left).setWidth 8 &&& (BitVec.ofBool right).setWidth 8
    let mask := bit b0 c0 ||| bit b1 c1 <<< 1 ||| bit b2 c2 <<< 2 ||| bit b3 c3 <<< 3
    mask < 16#8 ∧
      mask.getLsbD slot.val =
        (![b0, b1, b2, b3] slot && ![c0, c1, c2, c3] slot) := by
  revert b0 b1 b2 b3 c0 c1 c2 c3 slot
  decide +kernel

theorem match_mask_bit (self : MetaWord) (h2 : Byte) (slot : Fin 4) :
    self.matchMask h2 < 16#8 ∧
      (self.matchMask h2).getLsbD slot.val =
        decide (self.getState slot = SlotState.full ∧ self.getH2 slot = h2 &&& 0x7F#8) := by
  obtain ⟨small, bit⟩ := mask_bits (stateBits self.word 0 == 1#8) (stateBits self.word 1 == 1#8)
    (stateBits self.word 2 == 1#8) (stateBits self.word 3 == 1#8)
    (self.getH2 0 == h2 &&& 0x7F#8) (self.getH2 1 == h2 &&& 0x7F#8)
    (self.getH2 2 == h2 &&& 0x7F#8) (self.getH2 3 == h2 &&& 0x7F#8) slot
  refine ⟨small, ?_⟩
  refine Eq.trans bit ?_
  simp only [getState, full_iff_bits _ (state_bits_small self.word slot)]
  fin_cases slot <;> simp [Bool.decide_and, beq_eq_decide]

theorem scan_eq_filter (mask : Byte) (small : mask < 16#8) :
    scan mask = (List.finRange 4).filter fun slot => mask.getLsbD slot.val := by
  revert mask
  decide +kernel

/-- The candidates of a lookup, in the order the code visits them. -/
theorem scan_match_mask (self : MetaWord) (h2 : Byte) :
    scan (self.matchMask h2) = (List.finRange 4).filter fun slot =>
      self.getState slot = SlotState.full ∧ self.getH2 slot = h2 &&& 0x7F#8 := by
  rw [scan_eq_filter _ (self.match_mask_bit h2 0).1]
  apply List.filter_congr
  intro slot _
  exact (self.match_mask_bit h2 slot).2

theorem find_free_slot_some {self : MetaWord} {slot : Fin 4}
    (found : self.findFreeSlot = some slot) :
    self.getState slot ≠ SlotState.full ∧
      ∀ earlier < slot, self.getState earlier = SlotState.full := by
  obtain ⟨notFull, index, bound, here, before⟩ := List.find?_eq_some_iff_getElem.mp found
  rw [List.getElem_finRange] at here
  have position : index = slot.val := by simpa using congrArg Fin.val here
  refine ⟨by simpa [getState] using notFull, ?_⟩
  intro earlier less
  have passed := before earlier.val (by omega)
  simpa [getState] using passed

theorem find_free_slot_none {self : MetaWord} :
    self.findFreeSlot = none ↔ ∀ slot, self.getState slot = SlotState.full := by
  simp [findFreeSlot, getState]

/-- The running minimum over the slots seen so far: no Full slot yet, or the first
Full slot whose priority no seen Full slot undercuts. -/
def EvictInvariant (self : MetaWord) (seen : List (Fin 4)) (best : Byte × Option (Fin 4)) : Prop :=
  match best.2 with
  | none => ∀ slot ∈ seen, self.getState slot ≠ SlotState.full
  | some slot =>
      best.1 = self.getPriority slot ∧ slot ∈ seen ∧ self.getState slot = SlotState.full ∧
        ∀ other ∈ seen, self.getState other = SlotState.full →
          self.getPriority slot ≤ self.getPriority other ∧
            (other < slot → self.getPriority slot < self.getPriority other)

theorem evict_step_invariant (self : MetaWord) (seen : List (Fin 4))
    (best : Byte × Option (Fin 4)) (slot : Fin 4) (later : ∀ earlier ∈ seen, earlier < slot)
    (invariant : EvictInvariant self seen best) :
    EvictInvariant self (seen ++ [slot]) (evictStep self.word best slot) := by
  obtain ⟨least, choice⟩ := best
  by_cases full : self.getState slot = SlotState.full
  · have bits : SlotState.fromBits (stateBits self.word slot) = SlotState.full := full
    cases choice with
    | none =>
        have unseen : ∀ other ∈ seen, self.getState other ≠ SlotState.full := invariant
        have taken : evictStep self.word (least, none) slot = (self.getPriority slot, some slot) := by
          simp [evictStep, bits, getPriority]
        rw [taken]
        refine ⟨rfl, by simp, full, ?_⟩
        intro other member otherFull
        rcases List.mem_append.mp member with old | new
        · exact absurd otherFull (unseen other old)
        · rw [List.mem_singleton.mp new]
          exact ⟨BitVec.le_refl _, fun less => absurd less (lt_irrefl _)⟩
    | some current =>
        obtain ⟨value, member, currentFull, minimal⟩ := invariant
        simp only at value
        subst value
        by_cases smaller : self.getPriority slot < self.getPriority current
        · have taken : evictStep self.word (self.getPriority current, some current) slot =
              (self.getPriority slot, some slot) := by
            have less : prioBits self.word slot < self.getPriority current := smaller
            simp only [evictStep, bits, less, or_true, if_true]
            rfl
          rw [taken]
          refine ⟨rfl, by simp, full, ?_⟩
          intro other otherMember otherFull
          rcases List.mem_append.mp otherMember with old | new
          · have below : self.getPriority slot < self.getPriority other :=
              BitVec.lt_def.mpr (Nat.lt_of_lt_of_le (BitVec.lt_def.mp smaller)
                (BitVec.le_def.mp (minimal other old otherFull).1))
            exact ⟨BitVec.le_of_lt below, fun _ => below⟩
          · rw [List.mem_singleton.mp new]
            exact ⟨BitVec.le_refl _, fun less => absurd less (lt_irrefl _)⟩
        · have kept : evictStep self.word (self.getPriority current, some current) slot =
              (self.getPriority current, some current) := by
            have notLess : ¬prioBits self.word slot < self.getPriority current := smaller
            simp [evictStep, bits, notLess]
          rw [kept]
          refine ⟨rfl, by simp [member], currentFull, ?_⟩
          intro other otherMember otherFull
          rcases List.mem_append.mp otherMember with old | new
          · exact minimal other old otherFull
          · rw [List.mem_singleton.mp new]
            exact ⟨BitVec.not_lt.mp smaller,
              fun less => absurd (less.trans (later current member)) (lt_irrefl _)⟩
  · have skipped : evictStep self.word (least, choice) slot = (least, choice) := by
      have bits : ¬SlotState.fromBits (stateBits self.word slot) = SlotState.full := full
      simp [evictStep, bits]
    rw [skipped]
    cases choice with
    | none =>
        intro other member
        rcases List.mem_append.mp member with old | new
        · exact invariant other old
        · rw [List.mem_singleton.mp new]
          exact full
    | some current =>
        obtain ⟨value, member, currentFull, minimal⟩ := invariant
        refine ⟨value, by simp [member], currentFull, ?_⟩
        intro other otherMember otherFull
        rcases List.mem_append.mp otherMember with old | new
        · exact minimal other old otherFull
        · rw [List.mem_singleton.mp new] at otherFull
          exact absurd otherFull full

theorem evict_fold_invariant (self : MetaWord) (rest seen : List (Fin 4))
    (sorted : (seen ++ rest).Pairwise (· < ·)) (best : Byte × Option (Fin 4))
    (invariant : EvictInvariant self seen best) :
    EvictInvariant self (seen ++ rest) (rest.foldl (evictStep self.word) best) := by
  induction rest generalizing seen best with
  | nil => simpa using invariant
  | cons slot rest induction =>
      have later : ∀ earlier ∈ seen, earlier < slot := by
        intro earlier member
        exact (List.pairwise_append.mp sorted).2.2 earlier member slot (by simp)
      have next := induction (seen ++ [slot]) (by simpa using sorted) _
        (evict_step_invariant self seen best slot later invariant)
      simpa using next

theorem find_evict_target_invariant (self : MetaWord) :
    EvictInvariant self (List.finRange 4)
      ((List.finRange 4).foldl (evictStep self.word) (0xFF#8, none)) := by
  have start : EvictInvariant self [] (0xFF#8, none) := by
    intro slot member
    simp at member
  simpa using evict_fold_invariant self (List.finRange 4) [] (by decide) (0xFF#8, none) start

theorem find_evict_target_some {self : MetaWord} {slot : Fin 4}
    (found : self.findEvictTarget = some slot) :
    self.getState slot = SlotState.full ∧
      ∀ other, self.getState other = SlotState.full →
        self.getPriority slot ≤ self.getPriority other ∧
          (other < slot → self.getPriority slot < self.getPriority other) := by
  have invariant := find_evict_target_invariant self
  rw [EvictInvariant] at invariant
  simp only [findEvictTarget] at found
  rw [found] at invariant
  exact ⟨invariant.2.2.1, fun other => invariant.2.2.2 other (List.mem_finRange other)⟩

theorem find_evict_target_none {self : MetaWord} (missing : self.findEvictTarget = none)
    (slot : Fin 4) : self.getState slot ≠ SlotState.full := by
  have invariant := find_evict_target_invariant self
  rw [EvictInvariant] at invariant
  simp only [findEvictTarget] at missing
  rw [missing] at invariant
  exact invariant slot (List.mem_finRange slot)

end MetaWord

end PulseMap
