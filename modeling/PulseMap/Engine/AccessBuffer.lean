import PulseMap.Engine.Meta
import PulseMap.Library.Wrapping

/-!
`engine/access_buffer.rs`: the bounded, lossy queue of access events. Its words have
the width `w` of a `usize`. A `push` or `pop` is cut into its atomic loads,
compare-exchanges and stores; `BufferCall` is the point a call has reached and `step`
performs its next atomic access. The calls run to completion are `push` and `pop`.
-/

namespace PulseMap

variable {w : Nat}

structure AccessEvent (w : Nat) where
  sequence : BitVec w
  data : BitVec w

/-- The cells below `len` are the vector of the source. -/
structure AccessBuffer (w : Nat) where
  buffer : Nat → AccessEvent w
  len : Nat
  mask : BitVec w
  head : BitVec w
  tail : BitVec w

/-- A bucket index and a slot index. -/
abbrev Access (w : Nat) := BitVec w × Byte

namespace Access

/-- The guard of `push`: the slot takes two bits and the bucket leaves room for them. -/
def valid (event : Access w) : Bool :=
  decide (event.2 < 4#8) && decide (event.1 ≤ BitVec.allOnes w >>> 2)

def encode (event : Access w) : BitVec w := (event.1 <<< 2) ||| event.2.setWidth w

def decode (data : BitVec w) : Access w := (data >>> 2, (data &&& 3#w).setWidth 8)

end Access

/-- How far a call has come; each constructor but the last two names its next access. -/
inductive BufferCall (w : Nat) where
  | loadHead (event : Access w)
  | checkFree (event : Access w) (head : BitVec w)
  | reserve (event : Access w) (head : BitVec w)
  | storeData (event : Access w) (head : BitVec w)
  | publish (event : Access w) (head : BitVec w)
  | loadTail
  | checkPublished (tail : BitVec w)
  | claim (tail : BitVec w)
  | loadData (tail : BitVec w)
  | release (tail : BitVec w) (data : BitVec w)
  | pushed (accepted : Bool)
  | popped (event : Option (Access w))

namespace BufferCall

/-- Entry of `push`: an invalid event returns before the first access. -/
def push (event : Access w) : BufferCall w := if event.valid then loadHead event else pushed false

def pop : BufferCall w := loadTail

def returned : BufferCall w → Bool
  | pushed _ => true
  | popped _ => true
  | _ => false

end BufferCall

namespace AccessBuffer

def new (capacity : Nat) : AccessBuffer w :=
  let capacity := nextPowerOfTwo (max capacity 64)
  { buffer := fun i => { sequence := BitVec.ofNat w i, data := 0 }
    len := capacity
    mask := BitVec.ofNat w (capacity - 1)
    head := 0
    tail := 0 }

/-- The cell of a position: `&self.buffer[position & self.mask]`. -/
def cell (self : AccessBuffer w) (position : BitVec w) : Nat := (position &&& self.mask).toNat

def sequenceAt (self : AccessBuffer w) (position : BitVec w) : BitVec w :=
  (self.buffer (self.cell position)).sequence

def dataAt (self : AccessBuffer w) (position : BitVec w) : BitVec w :=
  (self.buffer (self.cell position)).data

def setSequence (self : AccessBuffer w) (position value : BitVec w) : AccessBuffer w :=
  let event := self.buffer (self.cell position)
  { self with
    buffer := Function.update self.buffer (self.cell position) { event with sequence := value } }

def setData (self : AccessBuffer w) (position value : BitVec w) : AccessBuffer w :=
  let event := self.buffer (self.cell position)
  { self with
    buffer := Function.update self.buffer (self.cell position) { event with data := value } }

/-- The next atomic access of a call. A failed check or exchange ends the call. -/
def step (self : AccessBuffer w) : BufferCall w → AccessBuffer w × BufferCall w
  | .loadHead event => (self, .checkFree event self.head)
  | .checkFree event head =>
      (self, if self.sequenceAt head = head then .reserve event head else .pushed false)
  | .reserve event head =>
      if self.head = head then ({ self with head := head + 1#w }, .storeData event head)
      else (self, .pushed false)
  | .storeData event head => (self.setData head event.encode, .publish event head)
  | .publish _ head => (self.setSequence head (head + 1#w), .pushed true)
  | .loadTail => (self, .checkPublished self.tail)
  | .checkPublished tail =>
      (self, if self.sequenceAt tail = tail + 1#w then .claim tail else .popped none)
  | .claim tail =>
      if self.tail = tail then ({ self with tail := tail + 1#w }, .loadData tail)
      else (self, .popped none)
  | .loadData tail => (self, .release tail (self.dataAt tail))
  | .release tail data =>
      (self.setSequence tail (tail + BitVec.ofNat w self.len), .popped (some (Access.decode data)))
  | .pushed accepted => (self, .pushed accepted)
  | .popped event => (self, .popped event)

/-- `push` without interference. -/
def push (self : AccessBuffer w) (event : Access w) : Bool × AccessBuffer w :=
  if event.valid ∧ self.sequenceAt self.head = self.head then
    let reserved := { self with head := self.head + 1#w }
    (true, (reserved.setData self.head event.encode).setSequence self.head (self.head + 1#w))
  else (false, self)

def pop (self : AccessBuffer w) : Option (Access w × AccessBuffer w) :=
  if self.sequenceAt self.tail = self.tail + 1#w then
    let claimed := { self with tail := self.tail + 1#w }
    some (Access.decode (self.dataAt self.tail),
      claimed.setSequence self.tail (self.tail + BitVec.ofNat w self.len))
  else none

end AccessBuffer

namespace Access

theorem encode_to_nat (wide : 8 ≤ w) {event : Access w} (valid : event.valid) :
    event.encode.toNat = 4 * event.1.toNat + event.2.toNat ∧ event.2.toNat < 4 := by
  obtain ⟨bucket, slot⟩ := event
  obtain ⟨quarter, quarters⟩ : ∃ quarter, 2 ^ w = 4 * quarter :=
    ⟨2 ^ (w - 2), by rw [show (4 : Nat) = 2 ^ 2 by rfl, ← pow_add]; congr 1; omega⟩
  have wideEnough : 2 ^ 8 ≤ 2 ^ w := Nat.pow_le_pow_right (by decide) wide
  simp only [Access.valid, Bool.and_eq_true, decide_eq_true_eq, BitVec.lt_def, BitVec.le_def,
    BitVec.toNat_ofNat, BitVec.toNat_ushiftRight, BitVec.toNat_allOnes,
    Nat.shiftRight_eq_div_pow] at valid
  have slotSmall : slot.toNat < 2 ^ 2 := by omega
  have bucketSmall : bucket.toNat <<< 2 < 2 ^ w := by
    rw [Nat.shiftLeft_eq]
    omega
  refine ⟨?_, slotSmall⟩
  rw [encode, BitVec.toNat_or, BitVec.toNat_shiftLeft, BitVec.toNat_setWidth,
    Nat.mod_eq_of_lt bucketSmall, Nat.mod_eq_of_lt (by omega : slot.toNat < 2 ^ w),
    ← Nat.shiftLeft_add_eq_or_of_lt slotSmall, Nat.shiftLeft_eq, Nat.mul_comm]

theorem decode_encode (wide : 8 ≤ w) {event : Access w} (valid : event.valid) :
    decode event.encode = event := by
  obtain ⟨packed, slotSmall⟩ := encode_to_nat wide valid
  have wideEnough : 2 ^ 8 ≤ 2 ^ w := Nat.pow_le_pow_right (by decide) wide
  refine Prod.ext ?_ ?_
  · apply BitVec.eq_of_toNat_eq
    rw [decode, BitVec.toNat_ushiftRight, packed, Nat.shiftRight_eq_div_pow]
    omega
  · apply BitVec.eq_of_toNat_eq
    rw [decode, BitVec.toNat_setWidth, BitVec.toNat_and, packed, BitVec.toNat_ofNat,
      Nat.mod_eq_of_lt (by omega : 3 < 2 ^ w), Nat.and_two_pow_sub_one_eq_mod _ 2]
    omega

end Access

end PulseMap
