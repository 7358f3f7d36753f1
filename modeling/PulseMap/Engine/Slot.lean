import PulseMap.Engine.Slab

/-!
`engine/slot.rs` and `engine/bucket.rs`: a slot is fourteen bytes that hold either
a short pair in place or an extended fingerprint and a slab index, told apart by
the top bit of the header byte. A bucket is a metadata word and four slots.
-/

namespace PulseMap

open ByteRange

structure Slot where
  data : Bytes
  size : data.length = 14

namespace Slot

def empty : Slot := ⟨List.replicate 14 0, rfl⟩

def clear (_ : Slot) : Slot := empty

def header (self : Slot) : Byte := self.data.getD 0 0

def getMode (self : Slot) : Byte := (self.header >>> 7) &&& 1#8

def setInline (_ : Slot) (key value : Bytes) : Slot where
  data :=
    let zeroed : Bytes := List.replicate 14 0
    let header := (BitVec.ofNat 8 key.length <<< 4) ||| ((BitVec.ofNat 8 value.length &&& 0x07#8) <<< 1)
    overwrite (overwrite (zeroed.set 0 header) 1 key) 7 value
  size := by
    simp only
    rw [overwrite_length, overwrite_length] <;> simp [overwrite_length]

def inlineKeyLen (self : Slot) : Nat := ((self.header >>> 4) &&& 0x07#8).toNat

def inlineKey (self : Slot) : Bytes := slice self.data 1 self.inlineKeyLen

def inlineValLen (self : Slot) : Nat := ((self.header >>> 1) &&& 0x07#8).toNat

def inlineValue (self : Slot) : Bytes := slice self.data 7 self.inlineValLen

def setSlab (_ : Slot) (extFpHi : Byte) (extFp : BitVec 32) (slabIdx : Nat) : Slot where
  data :=
    let zeroed : Bytes := List.replicate 14 0
    let header := 0x80#8 ||| (extFpHi &&& 0x7F#8)
    let tagged := (overwrite (zeroed.set 0 header) 1 (toLeBytes 4 extFp.toNat)).set 5 0
    overwrite tagged 6 (toLeBytes 8 slabIdx)
  size := by
    simp only
    rw [overwrite_length] <;> simp [overwrite_length]

def slabIdx (self : Slot) : Nat := fromLeBytes (slice self.data 6 8)

def getExtFp (self : Slot) : BitVec 32 := BitVec.ofNat 32 (fromLeBytes (slice self.data 1 4))

def getExtFpHi (self : Slot) : Byte := self.header &&& 0x7F#8

/-- `none` is the panic of a slab index out of range. -/
def matchesKey (self : Slot) (key : Bytes) (hr : HashResult) (pool : SlabPool) : Option Bool :=
  if self.getMode = 0#8 then some (self.inlineKey == key)
  else if self.getExtFpHi ≠ hr.extFpHi ∨ self.getExtFp ≠ hr.extFp then some false
  else do
    let entry ← pool.get self.slabIdx
    some (entry.key == key)

def getValue (self : Slot) (pool : SlabPool) : Option Bytes :=
  if self.getMode = 0#8 then some self.inlineValue
  else do
    let entry ← pool.get self.slabIdx
    some entry.value

def getKeyBytes (self : Slot) (pool : SlabPool) : Option Bytes :=
  if self.getMode = 0#8 then some self.inlineKey
  else do
    let entry ← pool.get self.slabIdx
    some entry.key

def getValueBytes (self : Slot) (pool : SlabPool) : Option Bytes := self.getValue pool

/-! ### The two encodings -/

/-- The test every store path makes before choosing the encoding. -/
def FitsInline (key value : Bytes) : Prop := key.length ≤ 6 ∧ value.length ≤ 7

instance (key value : Bytes) : Decidable (FitsInline key value) :=
  inferInstanceAs (Decidable (_ ∧ _))

theorem inline_header (keyLen valLen : Nat) (shortKey : keyLen ≤ 6) (shortVal : valLen ≤ 7) :
    let header := (BitVec.ofNat 8 keyLen <<< 4) ||| ((BitVec.ofNat 8 valLen &&& 0x07#8) <<< 1)
    (header >>> 7) &&& 1#8 = 0 ∧ ((header >>> 4) &&& 0x07#8).toNat = keyLen ∧
      ((header >>> 1) &&& 0x07#8).toNat = valLen := by
  have table : ∀ key : Fin 7, ∀ val : Fin 8,
      let header := (BitVec.ofNat 8 key.val <<< 4) ||| ((BitVec.ofNat 8 val.val &&& 0x07#8) <<< 1)
      (header >>> 7) &&& 1#8 = 0#8 ∧ ((header >>> 4) &&& 0x07#8).toNat = key.val ∧
        ((header >>> 1) &&& 0x07#8).toNat = val.val := by decide
  exact table ⟨keyLen, by omega⟩ ⟨valLen, by omega⟩

theorem header_set_inline (self : Slot) (key value : Bytes) (fits : FitsInline key value) :
    (self.setInline key value).header =
      (BitVec.ofNat 8 key.length <<< 4) ||| ((BitVec.ofNat 8 value.length &&& 0x07#8) <<< 1) := by
  obtain ⟨shortKey, shortVal⟩ := fits
  simp only [header, setInline, List.getD_eq_getElem?_getD]
  rw [overwrite_get _ _ _ (by rw [overwrite_length] <;> simp; omega)]
  rw [overwrite_get _ _ _ (by simp; omega)]
  simp

theorem get_mode_set_inline (self : Slot) (key value : Bytes) (fits : FitsInline key value) :
    (self.setInline key value).getMode = 0#8 := by
  rw [getMode, header_set_inline _ _ _ fits]
  exact (inline_header _ _ fits.1 fits.2).1

theorem inline_key_set_inline (self : Slot) (key value : Bytes) (fits : FitsInline key value) :
    (self.setInline key value).inlineKey = key := by
  have length : (self.setInline key value).inlineKeyLen = key.length := by
    rw [inlineKeyLen, header_set_inline _ _ _ fits]
    exact (inline_header _ _ fits.1 fits.2).2.1
  obtain ⟨shortKey, shortVal⟩ := fits
  rw [inlineKey, length]
  simp only [setInline]
  rw [slice_overwrite_disjoint _ _ _ (by rw [overwrite_length] <;> simp; omega) _ _ (by omega),
    slice_overwrite_same _ _ _ (by simp; omega)]

theorem inline_value_set_inline (self : Slot) (key value : Bytes) (fits : FitsInline key value) :
    (self.setInline key value).inlineValue = value := by
  have length : (self.setInline key value).inlineValLen = value.length := by
    rw [inlineValLen, header_set_inline _ _ _ fits]
    exact (inline_header _ _ fits.1 fits.2).2.2
  obtain ⟨shortKey, shortVal⟩ := fits
  rw [inlineValue, length]
  simp only [setInline]
  rw [slice_overwrite_same _ _ _ (by rw [overwrite_length] <;> simp; omega)]

theorem slab_header (extFpHi : Byte) :
    ((0x80#8 ||| (extFpHi &&& 0x7F#8)) >>> 7) &&& 1#8 = 1#8 ∧
      (0x80#8 ||| (extFpHi &&& 0x7F#8)) &&& 0x7F#8 = extFpHi &&& 0x7F#8 := by
  revert extFpHi
  decide

theorem header_set_slab (self : Slot) (extFpHi : Byte) (extFp : BitVec 32) (idx : Nat) :
    (self.setSlab extFpHi extFp idx).header = 0x80#8 ||| (extFpHi &&& 0x7F#8) := by
  simp only [header, setSlab, List.getD_eq_getElem?_getD]
  rw [overwrite_get _ _ _ (by simp [overwrite_length])]
  rw [if_pos (by decide), List.getElem?_set_ne (by decide), overwrite_get _ _ _ (by simp)]
  simp

theorem get_mode_set_slab (self : Slot) (extFpHi : Byte) (extFp : BitVec 32) (idx : Nat) :
    (self.setSlab extFpHi extFp idx).getMode = 1#8 := by
  rw [getMode, header_set_slab]
  exact (slab_header extFpHi).1

theorem ext_fp_hi_set_slab (self : Slot) (extFpHi : Byte) (extFp : BitVec 32) (idx : Nat) :
    (self.setSlab extFpHi extFp idx).getExtFpHi = extFpHi &&& 0x7F#8 := by
  rw [getExtFpHi, header_set_slab]
  exact (slab_header extFpHi).2

theorem slab_idx_set_slab (self : Slot) (extFpHi : Byte) (extFp : BitVec 32) (idx : Nat) :
    (self.setSlab extFpHi extFp idx).slabIdx = idx % 2 ^ 64 := by
  have range := slice_overwrite_same
    ((overwrite ((List.replicate 14 (0 : Byte)).set 0 (0x80#8 ||| (extFpHi &&& 0x7F#8))) 1
      (toLeBytes 4 extFp.toNat)).set 5 0) 6 (toLeBytes 8 idx) (by simp [overwrite_length])
  rw [to_le_bytes_length] at range
  simp only [slabIdx, setSlab]
  rw [range, from_le_to_le]
  norm_num

theorem ext_fp_set_slab (self : Slot) (extFpHi : Byte) (extFp : BitVec 32) (idx : Nat) :
    (self.setSlab extFpHi extFp idx).getExtFp = extFp := by
  have range := slice_overwrite_same
    ((List.replicate 14 (0 : Byte)).set 0 (0x80#8 ||| (extFpHi &&& 0x7F#8))) 1
    (toLeBytes 4 extFp.toNat) (by simp)
  rw [to_le_bytes_length] at range
  simp only [getExtFp, setSlab]
  rw [slice_overwrite_disjoint _ _ _ (by simp [overwrite_length]) _ _ (by omega)]
  -- byte 5 (the flags) lies outside the fingerprint's range 1..5
  have flags (data : Bytes) : slice (data.set 5 0) 1 4 = slice data 1 4 := by
    apply List.ext_getElem?
    intro index
    rw [slice_get, slice_get]
    split_ifs with inside
    · rw [List.getElem?_set_ne (by omega)]
    · rfl
  rw [flags, range, from_le_to_le]
  apply BitVec.eq_of_toNat_eq
  rw [BitVec.toNat_ofNat]
  have bound := extFp.isLt
  omega

theorem get_mode_empty : empty.getMode = 0#8 := by decide

end Slot

structure Bucket where
  metaWord : MetaWord
  slots : Fin 4 → Slot

def Bucket.empty : Bucket := ⟨MetaWord.empty, fun _ => Slot.empty⟩

end PulseMap
