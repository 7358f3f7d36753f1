import Mathlib

/-!
Bit fields of a machine word. A field is the run of `width` bits that starts at
bit `low`; reading is extraction, writing clears the run and ors the value in.
The two read-after-write rules are all a client needs: a write returns its own
value, and leaves every field that does not overlap it as it was.
-/

namespace PulseMap.BitField

variable {size width : Nat}

def get (word : BitVec size) (low width : Nat) : BitVec width :=
  word.extractLsb' low width

def put (word : BitVec size) (low : Nat) (value : BitVec width) : BitVec size :=
  (word &&& ~~~((BitVec.allOnes width).setWidth size <<< low)) ||| (value.setWidth size <<< low)

theorem get_bit (word : BitVec size) {low index : Nat} (inside : index < width) :
    (get word low width).getLsbD index = word.getLsbD (low + index) := by
  simp [get, inside]

theorem get_put_same (word : BitVec size) (low : Nat) (value : BitVec width)
    (inside : low + width ≤ size) : get (put word low value) low width = value := by
  ext index bound
  have position : low + index < size := by omega
  have notBelow : ¬low + index < low := by omega
  simp [get, put, position, bound, notBelow]

theorem get_put_disjoint (word : BitVec size) (low : Nat) (value : BitVec width)
    (otherLow otherWidth : Nat)
    (disjoint : low + width ≤ otherLow ∨ otherLow + otherWidth ≤ low) :
    get (put word low value) otherLow otherWidth = get word otherLow otherWidth := by
  ext index bound
  rcases disjoint with above | below
  · have notBelow : ¬otherLow + index < low := by omega
    have beyond : ¬otherLow + index - low < width := by omega
    have noBit : value.getLsbD (otherLow + index - low) = false :=
      BitVec.getLsbD_of_ge _ _ (Nat.le_of_not_lt beyond)
    by_cases inWord : otherLow + index < size
    · simp [get, put, notBelow, beyond, inWord, noBit]
    · have outside : word.getLsbD (otherLow + index) = false :=
        BitVec.getLsbD_of_ge _ _ (Nat.le_of_not_lt inWord)
      simp [get, put, inWord, outside]
  · have under : otherLow + index < low := by omega
    simp only [get, put, BitVec.getElem_extractLsb', BitVec.getLsbD_or, BitVec.getLsbD_and,
      BitVec.getLsbD_not, BitVec.getLsbD_shiftLeft, under, decide_true, Bool.not_true,
      Bool.and_false, Bool.false_and, Bool.or_false, Bool.not_false, Bool.and_true]
    by_cases inWord : otherLow + index < size
    · simp [inWord]
    · simp [BitVec.getLsbD_of_ge _ _ (Nat.le_of_not_lt inWord)]

/-- The shift-and-mask reading of the machine code is field extraction. -/
theorem shift_mask_eq_get (word : BitVec size) (low width narrow : Nat) :
    ((word >>> low) &&& (BitVec.allOnes width).setWidth size).setWidth narrow =
      (get word low width).setWidth narrow := by
  ext index bound
  by_cases inField : index < width
  · by_cases inWord : index < size
    · simp [get, inField, inWord]
    · have outside : word.getLsbD (low + index) = false :=
        BitVec.getLsbD_of_ge _ _ (by omega)
      simp [get, inWord, outside]
  · simp [get, inField]

end PulseMap.BitField
