import PulseMap.Engine.Meta

/-!
`engine/hash.rs`: a 64-bit hash of the key bytes, split into the bucket hash, the
fingerprint of the metadata word and the extended fingerprint of slab slots. The
hash function itself is a parameter: nothing below depends on its values.
-/

namespace PulseMap

abbrev Bytes := List Byte

structure HashResult where
  h1 : Word
  h2 : Byte
  extFpHi : Byte
  extFp : BitVec 32
deriving DecidableEq

def computeHash (wyhash : Bytes → Word) (key : Bytes) : HashResult :=
  let full := wyhash key
  { h1 := full
    h2 := ((full >>> 57) &&& 0x7F#64).setWidth 8
    extFpHi := ((full >>> 50) &&& 0x7F#64).setWidth 8
    extFp := ((full >>> 18) &&& 0xFFFFFFFF#64).setWidth 32 }

theorem h2_masked (wyhash : Bytes → Word) (key : Bytes) :
    (computeHash wyhash key).h2 &&& 0x7F#8 = (computeHash wyhash key).h2 := by
  have field : (computeHash wyhash key).h2 = (BitField.get (wyhash key) 57 7).setWidth 8 :=
    BitField.shift_mask_eq_get (wyhash key) 57 7 8
  rw [field]
  generalize BitField.get (wyhash key) 57 7 = bits
  revert bits
  decide

theorem ext_fp_hi_masked (wyhash : Bytes → Word) (key : Bytes) :
    (computeHash wyhash key).extFpHi &&& 0x7F#8 = (computeHash wyhash key).extFpHi := by
  have field : (computeHash wyhash key).extFpHi = (BitField.get (wyhash key) 50 7).setWidth 8 :=
    BitField.shift_mask_eq_get (wyhash key) 50 7 8
  rw [field]
  generalize BitField.get (wyhash key) 50 7 = bits
  revert bits
  decide

end PulseMap
