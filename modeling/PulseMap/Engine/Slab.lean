import PulseMap.Engine.Hash
import PulseMap.Library.ByteRange

/-!
`engine/slab.rs`: heap entries for pairs that do not fit a slot, addressed by an
index and recycled through a free list. An entry keeps its lengths and capacity in
32 bits and its bytes in a buffer whose real size is the length of `data`.
-/

namespace PulseMap

open ByteRange

/-- `SlabEntry`. The recorded capacity never exceeds the real buffer, whatever the
narrowing to 32 bits does, so every in-place copy stays inside the buffer. -/
structure SlabEntry where
  keyLen : BitVec 32
  valLen : BitVec 32
  cap : BitVec 32
  data : Bytes
  inBuffer : cap.toNat ≤ data.length

namespace SlabEntry

def key (self : SlabEntry) : Bytes := slice self.data 0 self.keyLen.toNat

def value (self : SlabEntry) : Bytes := slice self.data self.keyLen.toNat self.valLen.toNat

/-- `realloc` to `size` bytes: the old bytes up to the smaller size, then fresh ones. -/
def realloc (data : Bytes) (size : Nat) : Bytes :=
  data.take size ++ List.replicate (size - data.length) 0

theorem realloc_length (data : Bytes) (size : Nat) : (realloc data size).length = size := by
  simp only [realloc, List.length_append, List.length_take, List.length_replicate]
  omega

/-- The two `copy_nonoverlapping` calls. -/
def copyIn (data key value : Bytes) : Bytes := overwrite (overwrite data 0 key) key.length value

theorem copy_in_length (data key value : Bytes) (room : key.length + value.length ≤ data.length) :
    (copyIn data key value).length = data.length := by
  have first := overwrite_length data 0 key (Nat.zero_le _)
  rw [copyIn, overwrite_length _ _ _ (by omega), first]

theorem copy_in_key (data key value : Bytes) (room : key.length + value.length ≤ data.length) :
    slice (copyIn data key value) 0 key.length = key := by
  have first := overwrite_length data 0 key (Nat.zero_le _)
  rw [copyIn, slice_overwrite_disjoint _ _ _ (by omega) _ _ (by omega),
    slice_overwrite_same _ _ _ (by omega)]

theorem copy_in_value (data key value : Bytes) (room : key.length + value.length ≤ data.length) :
    slice (copyIn data key value) key.length value.length = value := by
  have first := overwrite_length data 0 key (Nat.zero_le _)
  rw [copyIn, slice_overwrite_same _ _ _ (by omega)]

theorem narrowed_le (size : Nat) : (BitVec.ofNat 32 size).toNat ≤ size := by
  rw [BitVec.toNat_ofNat]
  exact Nat.mod_le _ _

def rewrite (self : SlabEntry) (key value : Bytes) : SlabEntry :=
  let needed := key.length + value.length
  if fits : self.cap.toNat < needed then
    { keyLen := BitVec.ofNat 32 key.length
      valLen := BitVec.ofNat 32 value.length
      cap := BitVec.ofNat 32 needed
      data := copyIn (realloc self.data needed) key value
      inBuffer := by
        rw [copy_in_length _ _ _ (by rw [realloc_length]), realloc_length]
        exact narrowed_le _ }
  else
    { keyLen := BitVec.ofNat 32 key.length
      valLen := BitVec.ofNat 32 value.length
      cap := self.cap
      data := copyIn self.data key value
      inBuffer := by
        have room := self.inBuffer
        rw [copy_in_length _ _ _ (by omega)]
        exact room }

/-- The entry boxed by a fresh allocation; the layout has at least one byte. -/
def fresh (key value : Bytes) : SlabEntry :=
  let total := key.length + value.length
  { keyLen := BitVec.ofNat 32 key.length
    valLen := BitVec.ofNat 32 value.length
    cap := BitVec.ofNat 32 total
    data := copyIn (List.replicate (max total 1) 0) key value
    inBuffer := by
      rw [copy_in_length _ _ _ (by simp [total]), List.length_replicate]
      exact (narrowed_le total).trans (Nat.le_max_left total 1) }

def Carries (self : SlabEntry) (key value : Bytes) : Prop := self.key = key ∧ self.value = value

theorem carries_of_copy (self : SlabEntry) (buffer key value : Bytes)
    (room : key.length + value.length ≤ buffer.length)
    (small : key.length + value.length < 2 ^ 32)
    (keyLen : self.keyLen = BitVec.ofNat 32 key.length)
    (valLen : self.valLen = BitVec.ofNat 32 value.length)
    (data : self.data = copyIn buffer key value) : self.Carries key value := by
  have keySize : self.keyLen.toNat = key.length := by
    rw [keyLen, BitVec.toNat_ofNat, Nat.mod_eq_of_lt (by omega)]
  have valSize : self.valLen.toNat = value.length := by
    rw [valLen, BitVec.toNat_ofNat, Nat.mod_eq_of_lt (by omega)]
  constructor
  · rw [SlabEntry.key, keySize, data, copy_in_key _ _ _ room]
  · rw [SlabEntry.value, keySize, valSize, data, copy_in_value _ _ _ room]

theorem rewrite_carries (self : SlabEntry) (key value : Bytes)
    (small : key.length + value.length < 2 ^ 32) :
    (self.rewrite key value).Carries key value := by
  have room := self.inBuffer
  by_cases fits : self.cap.toNat < key.length + value.length
  · apply carries_of_copy _ (realloc self.data (key.length + value.length)) key value _ small <;>
      simp [rewrite, fits, realloc_length]
  · apply carries_of_copy _ self.data key value (by omega) small <;> simp [rewrite, fits]

theorem fresh_carries (key value : Bytes) (small : key.length + value.length < 2 ^ 32) :
    (fresh key value).Carries key value := by
  apply carries_of_copy _ (List.replicate (max (key.length + value.length) 1) 0) key value _ small <;>
    simp [fresh]

end SlabEntry

/-- `SlabPool`. Entries are never taken out of the vector, so the source's `Option`
is always `Some`; the free list is a stack with its top in front. -/
structure SlabPool where
  entries : List SlabEntry
  freeList : List Nat

namespace SlabPool

def new : SlabPool := ⟨[], []⟩

/-- `none` is the panic of an index past the end of `entries`. -/
def get (self : SlabPool) (idx : Nat) : Option SlabEntry := self.entries[idx]?

def alloc (self : SlabPool) (key value : Bytes) : Option (Nat × SlabPool) :=
  match self.freeList with
  | idx :: rest => do
      let entry ← self.entries[idx]?
      some (idx, { entries := self.entries.set idx (entry.rewrite key value), freeList := rest })
  | [] =>
      some (self.entries.length,
        { entries := self.entries ++ [SlabEntry.fresh key value], freeList := [] })

def free (self : SlabPool) (idx : Nat) : SlabPool :=
  { self with freeList := idx :: self.freeList }

@[simp] theorem free_entries (self : SlabPool) (idx : Nat) :
    (self.free idx).entries = self.entries := rfl

@[simp] theorem get_free (self : SlabPool) (idx other : Nat) :
    (self.free idx).get other = self.get other := rfl

end SlabPool

end PulseMap
