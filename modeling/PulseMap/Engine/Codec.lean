import PulseMap.Engine.Hash
import PulseMap.Library.ByteRange

/-!
`PulseKey` and `PulseValue` of `lib.rs` with their built-in types. A codec carries the proof
that what it encodes decodes to the same value, so two keys with the same bytes are equal.
-/

namespace PulseMap

open ByteRange

structure Codec (Value : Type) where
  toBytes : Value → Bytes
  fromBytes : Bytes → Option Value
  decodes : ∀ value, fromBytes (toBytes value) = some value

namespace Codec

variable {Value : Type}

theorem to_bytes_injective (codec : Codec Value) : Function.Injective codec.toBytes := by
  intro first second same
  have decoded := codec.decodes first
  rw [same, codec.decodes] at decoded
  exact (Option.some.inj decoded).symm

/-- An integer of `count` bytes: `to_le_bytes`, and back when the length fits. -/
def word (count : Nat) (toWord : Value → BitVec (8 * count)) (ofWord : BitVec (8 * count) → Value)
    (inverse : ∀ value, ofWord (toWord value) = value) : Codec Value where
  toBytes value := toLeBytes count (toWord value).toNat
  fromBytes bytes :=
    if bytes.length = count then some (ofWord (BitVec.ofNat _ (fromLeBytes bytes))) else none
  decodes := by
    intro value
    have small : (toWord value).toNat < 256 ^ count := by
      have bound := (toWord value).isLt
      rwa [pow_mul] at bound
    rw [to_le_bytes_length, if_pos rfl, from_le_to_le, Nat.mod_eq_of_lt small, BitVec.ofNat_toNat,
      BitVec.setWidth_eq, inverse]

/-- A single byte takes the first byte of whatever it is given. -/
def u8 : Codec UInt8 where
  toBytes value := [value.toBitVec]
  fromBytes bytes := bytes.head?.map UInt8.ofBitVec
  decodes := fun _ => rfl

def u16 : Codec UInt16 := word 2 UInt16.toBitVec UInt16.ofBitVec fun _ => rfl

def u32 : Codec UInt32 := word 4 UInt32.toBitVec UInt32.ofBitVec fun _ => rfl

def u64 : Codec UInt64 := word 8 UInt64.toBitVec UInt64.ofBitVec fun _ => rfl

def i32 : Codec Int32 := word 4 Int32.toBitVec Int32.ofBitVec fun _ => rfl

def i64 : Codec Int64 := word 8 Int64.toBitVec Int64.ofBitVec fun _ => rfl

def string : Codec String where
  toBytes text := text.toByteArray.data.toList.map UInt8.toBitVec
  fromBytes bytes := String.fromUTF8? ⟨(bytes.map UInt8.ofBitVec).toArray⟩
  decodes := by
    intro text
    have same : (⟨((text.toByteArray.data.toList.map UInt8.toBitVec).map
        UInt8.ofBitVec).toArray⟩ : ByteArray) = text.toByteArray := by
      simp [Function.comp_def]
    rw [same, String.fromUTF8?, dif_pos text.isValidUTF8]
    rfl

def vec : Codec Bytes where
  toBytes := id
  fromBytes := some
  decodes := fun _ => rfl

def array (size : Nat) : Codec (List.Vector Byte size) where
  toBytes := List.Vector.toList
  fromBytes bytes := if fits : bytes.length = size then some ⟨bytes, fits⟩ else none
  decodes := fun value => dif_pos value.2

/-- Every byte but zero reads as `true`. -/
def bool : Codec Bool where
  toBytes value := [if value then 1#8 else 0#8]
  fromBytes bytes := bytes.head?.map (· ≠ 0#8)
  decodes := by decide

end Codec

class PulseKey (Key : Type) where
  codec : Codec Key

class PulseValue (Value : Type) where
  codec : Codec Value

section Instances

instance : PulseKey UInt8 := ⟨Codec.u8⟩
instance : PulseKey UInt16 := ⟨Codec.u16⟩
instance : PulseKey UInt32 := ⟨Codec.u32⟩
instance : PulseKey UInt64 := ⟨Codec.u64⟩
instance : PulseKey Int32 := ⟨Codec.i32⟩
instance : PulseKey Int64 := ⟨Codec.i64⟩
instance : PulseKey String := ⟨Codec.string⟩
instance : PulseKey Bytes := ⟨Codec.vec⟩
instance (size : Nat) : PulseKey (List.Vector Byte size) := ⟨Codec.array size⟩

instance : PulseValue UInt8 := ⟨Codec.u8⟩
instance : PulseValue UInt16 := ⟨Codec.u16⟩
instance : PulseValue UInt32 := ⟨Codec.u32⟩
instance : PulseValue UInt64 := ⟨Codec.u64⟩
instance : PulseValue Int32 := ⟨Codec.i32⟩
instance : PulseValue Int64 := ⟨Codec.i64⟩
instance : PulseValue String := ⟨Codec.string⟩
instance : PulseValue Bytes := ⟨Codec.vec⟩
instance : PulseValue Bool := ⟨Codec.bool⟩

end Instances

variable {Key Value : Type} [PulseKey Key] [PulseValue Value]

def keyBytes (key : Key) : Bytes := PulseKey.codec.toBytes key

def valueBytes (value : Value) : Bytes := PulseValue.codec.toBytes value

end PulseMap
