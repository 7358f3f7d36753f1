import Mathlib

/-!
Byte buffers as lists: reading a range, copying a slice into a range, and
little-endian words. A copy never changes the length of its target, returns the
copied slice when the same range is read, and leaves disjoint ranges alone.
-/

namespace PulseMap.ByteRange

variable {Cell : Type*}

def slice (data : List Cell) (offset length : Nat) : List Cell := (data.drop offset).take length

/-- `data[offset .. offset + source.len()].copy_from_slice(source)`, clipped at the end. -/
def overwrite (data : List Cell) (offset : Nat) (source : List Cell) : List Cell :=
  data.take offset ++ source.take (data.length - offset) ++ data.drop (offset + source.length)

theorem overwrite_length (data : List Cell) (offset : Nat) (source : List Cell)
    (inside : offset ≤ data.length) : (overwrite data offset source).length = data.length := by
  simp only [overwrite, List.length_append, List.length_take, List.length_drop]
  omega

theorem overwrite_get (data : List Cell) (offset : Nat) (source : List Cell)
    (inside : offset + source.length ≤ data.length) (index : Nat) :
    (overwrite data offset source)[index]? =
      if index < offset then data[index]?
      else if index < offset + source.length then source[index - offset]?
      else data[index]? := by
  have whole : source.take (data.length - offset) = source := List.take_of_length_le (by omega)
  have front : (data.take offset).length = offset := by
    rw [List.length_take]
    omega
  rw [overwrite, whole, List.append_assoc]
  split_ifs with before within
  · rw [List.getElem?_append_left (by omega), List.getElem?_take_of_lt before]
  · rw [List.getElem?_append_right (by omega), front, List.getElem?_append_left (by omega)]
  · rw [List.getElem?_append_right (by omega), front, List.getElem?_append_right (by omega),
      List.getElem?_drop]
    congr 1
    omega

theorem slice_get (data : List Cell) (offset length index : Nat) :
    (slice data offset length)[index]? = if index < length then data[offset + index]? else none := by
  simp only [slice, List.getElem?_take, List.getElem?_drop]

theorem slice_overwrite_same (data : List Cell) (offset : Nat) (source : List Cell)
    (inside : offset + source.length ≤ data.length) :
    slice (overwrite data offset source) offset source.length = source := by
  apply List.ext_getElem?
  intro index
  rw [slice_get, overwrite_get _ _ _ inside]
  split_ifs <;> try omega
  · simp
  · rw [List.getElem?_eq_none (by omega)]

theorem slice_overwrite_disjoint (data : List Cell) (offset : Nat) (source : List Cell)
    (inside : offset + source.length ≤ data.length) (start length : Nat)
    (disjoint : start + length ≤ offset ∨ offset + source.length ≤ start) :
    slice (overwrite data offset source) start length = slice data start length := by
  apply List.ext_getElem?
  intro index
  rw [slice_get, slice_get, overwrite_get _ _ _ inside]
  split_ifs <;> first | rfl | omega

/-- `to_le_bytes` of a word of `count` bytes. -/
def toLeBytes : Nat → Nat → List (BitVec 8)
  | 0, _ => []
  | count + 1, value => BitVec.ofNat 8 value :: toLeBytes count (value / 256)

def fromLeBytes : List (BitVec 8) → Nat
  | [] => 0
  | byte :: rest => byte.toNat + 256 * fromLeBytes rest

@[simp] theorem to_le_bytes_length (count value : Nat) : (toLeBytes count value).length = count := by
  induction count generalizing value with
  | zero => rfl
  | succ count induction => simp [toLeBytes, induction]

theorem from_le_to_le (count value : Nat) :
    fromLeBytes (toLeBytes count value) = value % 256 ^ count := by
  induction count generalizing value with
  | zero => simp [toLeBytes, fromLeBytes, Nat.mod_one]
  | succ count induction =>
      have power : (256 : Nat) ^ (count + 1) = 256 * 256 ^ count := pow_succ' 256 count
      rw [toLeBytes, fromLeBytes, induction, BitVec.toNat_ofNat, power, Nat.mod_mul]

end PulseMap.ByteRange
