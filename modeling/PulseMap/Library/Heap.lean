import PulseMap.Library.ByteRange

/-!
A heap of blocks behind an allocator, which may answer a request with null. What the
allocator's contract forbids is a fault: a use of null, a layout of no bytes, a block that was
released or never allocated, a layout of another size than the block's, an access beyond the
block. A reallocated block moves, so that its old address is as dead as a released one.
-/

namespace PulseMap

open ByteRange

/-- The blocks in the order of their allocation; a released one leaves its place empty. -/
structure Heap (Cell : Type) where
  blocks : List (Option (List Cell))

inductive Fault where
  /-- The pointer is null. -/
  | null
  | misuse
deriving DecidableEq

namespace Heap

variable {Cell : Type}

def empty : Heap Cell := ⟨[]⟩

def block (self : Heap Cell) (address : Nat) : Option (List Cell) := self.blocks[address]?.join

def next (self : Heap Cell) : Nat := self.blocks.length

def push (self : Heap Cell) (block : List Cell) : Heap Cell := ⟨self.blocks ++ [some block]⟩

def put (self : Heap Cell) (address : Nat) (block : Option (List Cell)) : Heap Cell :=
  ⟨self.blocks.set address block⟩

def deref (self : Heap Cell) : Option Nat → Except Fault (Nat × List Cell)
  | none => .error .null
  | some address =>
      match self.block address with
      | none => .error .misuse
      | some block => .ok (address, block)

section Requests

variable (grants : Heap Cell → Nat → Bool)

def alloc (self : Heap Cell) (fill : Cell) (size : Nat) : Except Fault (Option Nat × Heap Cell) :=
  if size = 0 then .error .misuse
  else if grants self size then .ok (some self.next, self.push (List.replicate size fill))
  else .ok (none, self)

/-- A refused block stays where it is. -/
def realloc (self : Heap Cell) (fill : Cell) (pointer : Option Nat) (oldSize newSize : Nat) :
    Except Fault (Option Nat × Heap Cell) := do
  let (address, old) ← self.deref pointer
  if old.length = oldSize ∧ newSize ≠ 0 then
    if grants self newSize then
      .ok (some self.next, (self.put address none).push
        (old.take newSize ++ List.replicate (newSize - old.length) fill))
    else .ok (none, self)
  else .error .misuse

end Requests

def dealloc (self : Heap Cell) (pointer : Option Nat) (size : Nat) : Except Fault (Heap Cell) := do
  let (address, old) ← self.deref pointer
  if old.length = size then .ok (self.put address none) else .error .misuse

def write (self : Heap Cell) (pointer : Option Nat) (offset : Nat) (source : List Cell) :
    Except Fault (Heap Cell) := do
  let (address, old) ← self.deref pointer
  if offset + source.length ≤ old.length then
    .ok (self.put address (some (overwrite old offset source)))
  else .error .misuse

def read (self : Heap Cell) (pointer : Option Nat) (offset length : Nat) :
    Except Fault (List Cell) := do
  let (_, block) ← self.deref pointer
  if offset + length ≤ block.length then .ok (slice block offset length) else .error .misuse

variable {self : Heap Cell} {address : Nat}

structure Rewrites (before after : Heap Cell) (address : Nat) (block : List Cell) : Prop where
  here : after.block address = some block
  others : ∀ other, other ≠ address → after.block other = before.block other

section Calls

variable {old : List Cell}

variable {grants : Heap Cell → Nat → Bool}

end Calls

/-! ### Computations on a heap -/

section Fares

variable {First Second : Type} {lacking : Prop}

end Fares

/-! ### Owners -/

variable {Index : Type}

variable {owner : Index → Option Nat}

section Groups

variable {First Second : Type} {first : First → Option Nat} {second : Second → Option Nat}

def Leaves (before after : Heap Cell) (owner : Index → Option Nat) : Prop :=
  ∀ index address block, owner index = some address → before.block address = some block →
    after.block address = some block

theorem Leaves.trans {middle after : Heap Cell} (early : self.Leaves middle owner)
    (late : middle.Leaves after owner) : self.Leaves after owner :=
  fun index address block held there => late index address block held (early index address block held there)

end Groups

variable [DecidableEq Index] {index : Index}

end Heap

end PulseMap
