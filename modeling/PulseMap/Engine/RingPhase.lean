import PulseMap.Engine.Ring

/-!
The invariant of the access buffer. Position `p` lives in cell `p % 2 ^ bits`, and the
sequence word of a cell encodes the phase of the last position reserved in it: reserved,
published, or released for the position one turn later. Five atomic accesses change the
ring; each keeps the invariant under what its caller has checked before.
-/

namespace PulseMap

open Wrapping

variable {w bits : Nat}

namespace Ring

/-- The position may be reserved: its cell was never used or has been released. -/
def Free (bits : Nat) (self : Ring w) (position : Nat) : Prop :=
  position < 2 ^ bits ∨ position - 2 ^ bits ∈ self.released

/-- The sequence number of the cell that `position` will be reserved in next. -/
def phase (bits : Nat) (self : Ring w) (position : Nat) : Nat :=
  if position < 2 ^ bits ∨ position - 2 ^ bits ∈ self.released then position
  else if position - 2 ^ bits ∈ self.published then position - 2 ^ bits + 1
  else position - 2 ^ bits

structure Invariant (bits : Nat) (ring : Ring w) : Prop where
  size : ring.buffer.len = 2 ^ bits
  mask : ring.buffer.mask = BitVec.ofNat w (2 ^ bits - 1)
  head : ring.buffer.head = BitVec.ofNat w ring.accepted.length
  tail : ring.buffer.tail = BitVec.ofNat w ring.claims
  queued : ring.claims ≤ ring.accepted.length
  room : ring.accepted.length ≤ ring.claims + 2 ^ bits
  cells : ∀ position, ring.accepted.length ≤ position →
    position < ring.accepted.length + 2 ^ bits →
    (ring.buffer.buffer (position % 2 ^ bits)).sequence = BitVec.ofNat w (ring.phase bits position)
  payload : ∀ position event, ring.accepted[position]? = some event →
    position ∈ ring.published → position ∉ ring.released →
    (ring.buffer.buffer (position % 2 ^ bits)).data = event.encode
  accepts : ∀ event ∈ ring.accepted, event.valid
  claimed : ∀ position < ring.claims, position ∈ ring.published
  reserved : ∀ position ∈ ring.published, position < ring.accepted.length
  consumed : ∀ position ∈ ring.released, position < ring.claims
  reused : ∀ position, position + 2 ^ bits < ring.accepted.length → position ∈ ring.released
  exact : ∀ position event, (position, event) ∈ ring.delivered →
    ring.accepted[position]? = some event
  once : ring.released.Nodup

/-! ### The five accesses that change the ring -/

@[simps]
def reserve (self : Ring w) (event : Access w) : Ring w :=
  { self with
    buffer := { self.buffer with head := self.buffer.head + 1#w }
    accepted := self.accepted ++ [event] }

@[simps]
def storeData (self : Ring w) (position : Nat) (event : Access w) : Ring w :=
  { self with buffer := self.buffer.setData (BitVec.ofNat w position) event.encode }

@[simps]
def publish (self : Ring w) (position : Nat) : Ring w :=
  { self with
    buffer := self.buffer.setSequence (BitVec.ofNat w position) (BitVec.ofNat w position + 1#w)
    published := insert position self.published }

@[simps]
def claim (self : Ring w) : Ring w :=
  { self with
    buffer := { self.buffer with tail := self.buffer.tail + 1#w }
    claims := self.claims + 1 }

@[simps]
def release (self : Ring w) (position : Nat) (event : Access w) : Ring w :=
  { self with
    buffer := self.buffer.setSequence (BitVec.ofNat w position)
      (BitVec.ofNat w position + BitVec.ofNat w self.buffer.len)
    delivered := self.delivered ++ [(position, event)] }

@[simp] theorem released_reserve (self : Ring w) (event : Access w) :
    (self.reserve event).released = self.released := rfl

@[simp] theorem released_store_data (self : Ring w) (position : Nat) (event : Access w) :
    (self.storeData position event).released = self.released := rfl

@[simp] theorem released_publish (self : Ring w) (position : Nat) :
    (self.publish position).released = self.released := rfl

@[simp] theorem released_claim (self : Ring w) : self.claim.released = self.released := rfl

@[simp] theorem released_release (self : Ring w) (position : Nat) (event : Access w) :
    (self.release position event).released = self.released ++ [position] := by
  simp [released, release]

variable {ring : Ring w}

theorem cell_index (invariant : ring.Invariant bits) (narrow : bits ≤ w) (position : Nat) :
    ring.buffer.cell (BitVec.ofNat w position) = position % 2 ^ bits := by
  rw [AccessBuffer.cell, invariant.mask, mask_index narrow]

theorem phase_free {position : Nat} (free : ring.Free bits position) :
    ring.phase bits position = position := if_pos free

theorem phase_next (position : Nat) :
    ring.phase bits (position + 2 ^ bits) =
      if position ∈ ring.released then position + 2 ^ bits
      else if position ∈ ring.published then position + 1 else position := by
  have positive : 0 < 2 ^ bits := by positivity
  have late : ¬ position + 2 ^ bits < 2 ^ bits := by omega
  simp [phase]

theorem in_window (invariant : ring.Invariant bits) {position : Nat}
    (live : position ∉ ring.released) : ring.accepted.length ≤ position + 2 ^ bits := by
  by_contra outside
  exact live (invariant.reused position (by omega))

theorem reserve_invariant (invariant : ring.Invariant bits) {event : Access w} (valid : event.valid)
    (free : ring.Free bits ring.accepted.length) : (ring.reserve event).Invariant bits := by
  have positive : 0 < 2 ^ bits := by positivity
  have fits : ring.accepted.length < ring.claims + 2 ^ bits := by
    rcases free with early | released
    · omega
    · have earlier := invariant.consumed _ released
      omega
  have freshPublished : ring.accepted.length ∉ ring.published := fun member =>
    Nat.lt_irrefl _ (invariant.reserved _ member)
  have freshReleased : ring.accepted.length ∉ ring.released := fun member => by
    have earlier := invariant.consumed _ member
    have queued := invariant.queued
    omega
  refine
    { size := invariant.size
      mask := invariant.mask
      head := ?_
      tail := invariant.tail
      queued := ?_
      room := ?_
      cells := ?_
      payload := ?_
      accepts := ?_
      claimed := invariant.claimed
      reserved := ?_
      consumed := invariant.consumed
      reused := ?_
      exact := ?_
      once := invariant.once }
  · simp [reserve, invariant.head, BitVec.ofNat_add]
  · have queued := invariant.queued
    simp only [reserve_accepted, reserve_claims, List.length_append, List.length_singleton]
    omega
  · simp only [reserve_accepted, reserve_claims, List.length_append, List.length_singleton]
    omega
  · intro position low high
    simp only [reserve_accepted, List.length_append, List.length_singleton] at low high
    by_cases last : position = ring.accepted.length + 2 ^ bits
    · subst last
      have current := invariant.cells ring.accepted.length le_rfl (by omega)
      rw [phase_free free] at current
      rw [phase_next, Nat.add_mod_right, released_reserve, if_neg freshReleased,
        reserve_published, if_neg freshPublished]
      exact current
    · exact invariant.cells position (by omega) (by omega)
  · intro position event found member live
    have below : position < ring.accepted.length := invariant.reserved position member
    simp only [reserve_accepted, List.getElem?_append_left below] at found
    exact invariant.payload position event found member live
  · intro accepted member
    rcases List.mem_append.mp member with old | new
    · exact invariant.accepts accepted old
    · rw [List.mem_singleton.mp new]
      exact valid
  · intro position member
    have below := invariant.reserved position member
    simp only [reserve_accepted, List.length_append, List.length_singleton]
    omega
  · intro position early
    simp only [reserve_accepted, List.length_append, List.length_singleton] at early
    by_cases last : position + 2 ^ bits = ring.accepted.length
    · rcases free with unused | released
      · omega
      · rwa [← last, Nat.add_sub_cancel] at released
    · exact invariant.reused position (by omega)
  · intro position delivered member
    have found := invariant.exact position delivered member
    have below : position < ring.accepted.length := (List.getElem?_eq_some_iff.mp found).1
    simp only [reserve_accepted, List.getElem?_append_left below]
    exact found

/-- The cell of the next position carries its number only when it is free: the other
phases are at most a ring size behind, far less than a turn of the words. -/
theorem check_free (invariant : ring.Invariant bits) (positive : 0 < bits) (narrow : bits + 2 ≤ w)
    (same : ring.buffer.sequenceAt (BitVec.ofNat w ring.accepted.length) =
      BitVec.ofNat w ring.accepted.length) : ring.Free bits ring.accepted.length := by
  have sizes : 2 ^ (bits + 2) ≤ 2 ^ w := Nat.pow_le_pow_right (by decide) narrow
  have two : 2 ^ 1 ≤ 2 ^ bits := Nat.pow_le_pow_right (by decide) positive
  have word := invariant.cells ring.accepted.length le_rfl (by omega)
  rw [AccessBuffer.sequenceAt, cell_index invariant (by omega), word] at same
  by_contra occupied
  have late : ¬ ring.accepted.length < 2 ^ bits := fun early => occupied (Or.inl early)
  have phases : ring.phase bits ring.accepted.length = ring.accepted.length - 2 ^ bits + 1 ∨
      ring.phase bits ring.accepted.length = ring.accepted.length - 2 ^ bits := by
    unfold Free at occupied
    rw [phase, if_neg occupied]
    split_ifs
    · exact Or.inl rfl
    · exact Or.inr rfl
  have equal := word_injective (by omega) (by rw [pow_add] at sizes; omega) same
  omega

theorem check_published (invariant : ring.Invariant bits) (narrow : bits + 2 ≤ w)
    (same : ring.buffer.sequenceAt (BitVec.ofNat w ring.claims) =
      BitVec.ofNat w ring.claims + 1#w) : ring.claims ∈ ring.published := by
  have sizes : 2 ^ (bits + 2) ≤ 2 ^ w := Nat.pow_le_pow_right (by decide) narrow
  rw [pow_add] at sizes
  have one : 0 < 2 ^ bits := by positivity
  have queued := invariant.queued
  have room := invariant.room
  rw [AccessBuffer.sequenceAt, cell_index invariant (by omega), ← BitVec.ofNat_add] at same
  have live : ring.claims ∉ ring.released := fun member =>
    Nat.lt_irrefl _ (invariant.consumed _ member)
  by_contra unpublished
  by_cases empty : ring.claims = ring.accepted.length
  · have word := invariant.cells ring.claims (by omega) (by omega)
    rw [word] at same
    have phases : ring.phase bits ring.claims ≤ ring.claims ∧
        ring.claims ≤ ring.phase bits ring.claims + 2 ^ bits := by
      rw [phase]
      split_ifs <;> omega
    have equal := word_injective (by omega) (by omega) same
    omega
  · have word := invariant.cells (ring.claims + 2 ^ bits) (by omega) (by omega)
    rw [Nat.add_mod_right, phase_next, if_neg live, if_neg unpublished] at word
    rw [word] at same
    have equal := word_injective (by omega) (by omega) same
    omega

theorem same_cell {left right : Nat}
    (leftIn : left < ring.accepted.length ∧ ring.accepted.length ≤ left + 2 ^ bits)
    (rightIn : right < ring.accepted.length ∧ ring.accepted.length ≤ right + 2 ^ bits)
    (same : left % 2 ^ bits = right % 2 ^ bits) : left = right := by
  have leftShifted : ring.accepted.length ≤ left + 2 ^ bits ∧
      left + 2 ^ bits < ring.accepted.length + 2 ^ bits := by omega
  have rightShifted : ring.accepted.length ≤ right + 2 ^ bits ∧
      right + 2 ^ bits < ring.accepted.length + 2 ^ bits := by omega
  have shifted := window_injective leftShifted rightShifted (by simpa using same)
  omega

theorem unpublished_window (invariant : ring.Invariant bits) {position : Nat}
    (unpublished : position ∉ ring.published) : ring.accepted.length ≤ position + 2 ^ bits := by
  have unclaimed : ring.claims ≤ position := by
    by_contra claimed
    exact unpublished (invariant.claimed position (by omega))
  have room := invariant.room
  omega

theorem store_data_invariant (narrow : bits ≤ w) (invariant : ring.Invariant bits) {position : Nat}
    {event : Access w} (below : position < ring.accepted.length)
    (unpublished : position ∉ ring.published) : (ring.storeData position event).Invariant bits := by
  refine { invariant with cells := ?_, payload := ?_ }
  · intro next low high
    have sequence := invariant.cells next low high
    simp only [storeData_buffer, AccessBuffer.setData, cell_index invariant narrow]
    by_cases same : next % 2 ^ bits = position % 2 ^ bits
    · rw [← same, Function.update_self]
      exact sequence
    · rw [Function.update_of_ne same]
      exact sequence
  · intro other stored found member live
    have otherIn := And.intro (invariant.reserved other member) (in_window invariant live)
    have apart : other % 2 ^ bits ≠ position % 2 ^ bits := by
      intro same
      have equal := same_cell otherIn ⟨below, unpublished_window invariant unpublished⟩ same
      rw [equal] at member
      exact unpublished member
    simp only [storeData_buffer, AccessBuffer.setData, cell_index invariant narrow]
    rw [Function.update_of_ne apart]
    exact invariant.payload other stored found member live

theorem set_sequence_cells (narrow : bits ≤ w) (invariant : ring.Invariant bits) (changed : Ring w)
    (position value : Nat) (accepted : changed.accepted = ring.accepted)
    (buffer : changed.buffer =
      ring.buffer.setSequence (BitVec.ofNat w position) (BitVec.ofNat w value))
    (inside : position < ring.accepted.length ∧ ring.accepted.length ≤ position + 2 ^ bits)
    (own : changed.phase bits (position + 2 ^ bits) = value)
    (others : ∀ next, next ≠ position + 2 ^ bits → changed.phase bits next = ring.phase bits next)
    (next : Nat) (low : changed.accepted.length ≤ next)
    (high : next < changed.accepted.length + 2 ^ bits) :
    (changed.buffer.buffer (next % 2 ^ bits)).sequence =
      BitVec.ofNat w (changed.phase bits next) := by
  rw [accepted] at low high
  simp only [buffer, AccessBuffer.setSequence, cell_index invariant narrow]
  by_cases same : next = position + 2 ^ bits
  · subst same
    rw [Nat.add_mod_right, Function.update_self, own]
  · have apart : next % 2 ^ bits ≠ position % 2 ^ bits := by
      intro shared
      exact same (window_injective ⟨low, high⟩
        (by omega : ring.accepted.length ≤ position + 2 ^ bits ∧
          position + 2 ^ bits < ring.accepted.length + 2 ^ bits) (by simpa using shared))
    rw [Function.update_of_ne apart, others next same]
    exact invariant.cells next low high

theorem set_sequence_data (buffer : AccessBuffer w) (position value : BitVec w) (cell : Nat) :
    ((buffer.setSequence position value).buffer cell).data = (buffer.buffer cell).data := by
  simp only [AccessBuffer.setSequence]
  by_cases same : cell = buffer.cell position
  · rw [same, Function.update_self]
  · rw [Function.update_of_ne same]

theorem phase_publish {position next : Nat} (other : next ≠ position + 2 ^ bits) :
    (ring.publish position).phase bits next = ring.phase bits next := by
  by_cases early : next < 2 ^ bits
  · simp [phase, early]
  · have apart : next - 2 ^ bits ≠ position := by omega
    simp [phase, early, apart]

theorem publish_invariant (narrow : bits ≤ w) (invariant : ring.Invariant bits) {position : Nat}
    {event : Access w} (found : ring.accepted[position]? = some event)
    (unpublished : position ∉ ring.published)
    (stored : (ring.buffer.buffer (position % 2 ^ bits)).data = event.encode) :
    (ring.publish position).Invariant bits := by
  have below : position < ring.accepted.length := (List.getElem?_eq_some_iff.mp found).1
  have live : position ∉ ring.released := fun member =>
    unpublished (invariant.claimed position (invariant.consumed position member))
  refine { invariant with cells := ?_, payload := ?_, claimed := ?_, reserved := ?_ }
  · apply set_sequence_cells narrow invariant (ring.publish position) position (position + 1) rfl
    · rw [publish_buffer, BitVec.ofNat_add]
    · exact ⟨below, in_window invariant live⟩
    · simp [phase_next, live]
    · exact fun next other => phase_publish other
  · intro other event' foundOther member liveOther
    rw [publish_buffer, set_sequence_data]
    rcases Finset.mem_insert.mp member with same | old
    · subst same
      rw [publish_accepted, found] at foundOther
      rw [stored, Option.some.inj foundOther]
    · exact invariant.payload other event' foundOther old liveOther
  · intro claimed early
    exact Finset.mem_insert_of_mem (invariant.claimed claimed early)
  · intro other member
    rcases Finset.mem_insert.mp member with same | old
    · rwa [same]
    · exact invariant.reserved other old

theorem claim_invariant (invariant : ring.Invariant bits) (ready : ring.claims ∈ ring.published) :
    ring.claim.Invariant bits := by
  have below := invariant.reserved _ ready
  have room := invariant.room
  refine { invariant with tail := ?_, queued := ?_, room := ?_, claimed := ?_, consumed := ?_ }
  · simp [invariant.tail, BitVec.ofNat_add]
  · simp only [claim_accepted, claim_claims]
    omega
  · simp only [claim_accepted, claim_claims]
    omega
  · intro position early
    simp only [claim_claims] at early
    by_cases last : position = ring.claims
    · rw [last]
      exact ready
    · exact invariant.claimed position (by omega)
  · intro position member
    have early := invariant.consumed position member
    simp only [claim_claims]
    omega

theorem phase_release {position next : Nat} {event : Access w} (other : next ≠ position + 2 ^ bits) :
    (ring.release position event).phase bits next = ring.phase bits next := by
  by_cases early : next < 2 ^ bits
  · simp [phase, early]
  · have apart : next - 2 ^ bits ≠ position := by omega
    simp [phase, early, apart]

theorem release_invariant (narrow : bits ≤ w) (invariant : ring.Invariant bits) {position : Nat}
    {event : Access w} (claimed : position < ring.claims) (live : position ∉ ring.released)
    (found : ring.accepted[position]? = some event) :
    (ring.release position event).Invariant bits := by
  have below : position < ring.accepted.length := (List.getElem?_eq_some_iff.mp found).1
  refine { invariant with
    cells := ?_, payload := ?_, consumed := ?_, reused := ?_, exact := ?_, once := ?_ }
  · apply set_sequence_cells narrow invariant (ring.release position event) position
      (position + 2 ^ bits) rfl
    · rw [release_buffer, BitVec.ofNat_add, invariant.size]
    · exact ⟨below, in_window invariant live⟩
    · simp [phase_next]
    · exact fun next other => phase_release other
  · intro other stored foundOther member liveOther
    rw [released_release, List.mem_append, not_or] at liveOther
    rw [release_buffer, set_sequence_data]
    exact invariant.payload other stored foundOther member liveOther.1
  · intro other member
    rw [released_release] at member
    rcases List.mem_append.mp member with old | new
    · exact invariant.consumed other old
    · rwa [List.mem_singleton.mp new]
  · intro other early
    rw [released_release]
    exact List.mem_append_left _ (invariant.reused other early)
  · intro other delivered member
    rcases List.mem_append.mp member with old | new
    · exact invariant.exact other delivered old
    · obtain ⟨rfl, rfl⟩ := Prod.mk.inj (List.mem_singleton.mp new)
      exact found
  · rw [released_release]
    exact List.nodup_append.mpr ⟨invariant.once, List.nodup_singleton _, by
      intro other member last lastMember same
      rw [List.mem_singleton] at lastMember
      exact live (lastMember ▸ same ▸ member)⟩

end Ring

end PulseMap
