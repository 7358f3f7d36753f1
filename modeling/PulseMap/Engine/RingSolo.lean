import PulseMap.Engine.RingDelivery

/-!
A buffer call that runs without interference. It is the sequential `push` or `pop` of the
buffer, and while no other call is under way a pop fails only on an empty queue.
-/

namespace PulseMap

open Wrapping

variable {w : Nat}

namespace RingState

/-- The accesses of a thread's call, uninterrupted, until it returns. -/
def complete (thread : Nat) : Nat → RingState w → RingState w
  | 0, state => state
  | fuel + 1, state =>
      if (state.threads thread).call.returned then state
      else complete thread fuel (state.advance thread)

def popped (state : RingState w) (thread : Nat) : RingState w :=
  match state.ring.buffer.pop with
  | none => state.setThread thread ⟨.popped none, state.ring.claims, 0⟩
  | some (event, rest) =>
      { state with
        ring := { state.ring with
          buffer := rest
          claims := state.ring.claims + 1
          delivered := state.ring.delivered ++ [(state.ring.claims, event)] } }.setThread thread
            ⟨.popped (some event), state.ring.claims, 0⟩

def pushed (state : RingState w) (thread : Nat) (event : Access w) : RingState w :=
  if event.valid then
    if (state.ring.buffer.push event).1 then
      { (state.countReservation thread) with
        ring := { state.ring with
          buffer := (state.ring.buffer.push event).2
          accepted := state.ring.accepted ++ [event]
          published := insert state.ring.accepted.length state.ring.published } }.setThread thread
            ⟨.pushed true, state.ring.accepted.length, 0⟩
    else state.setThread thread ⟨.pushed false, state.ring.accepted.length, 0⟩
  else state.setThread thread ⟨.pushed false, 0, 0⟩

variable {state : RingState w} {thread : Nat}

theorem complete_pop (quiet : (state.threads thread).call.returned = true) :
    (state.act (.pop thread)).complete thread 5 = state.popped thread := by
  rw [act, start, if_pos quiet, BufferCall.pop]
  by_cases ready : state.ring.buffer.sequenceAt state.ring.buffer.tail =
      state.ring.buffer.tail + 1#w
  · simp [complete, advance, setThread, AccessBuffer.step, BufferCall.returned, popped, ready,
      AccessBuffer.pop, AccessBuffer.dataAt, AccessBuffer.cell]
  · simp [complete, advance, setThread, AccessBuffer.step, BufferCall.returned, popped, ready,
      AccessBuffer.pop]

theorem complete_push (quiet : (state.threads thread).call.returned = true) (event : Access w) :
    (state.act (.push thread event)).complete thread 5 = state.pushed thread event := by
  rw [act, start, if_pos quiet, BufferCall.push]
  by_cases valid : event.valid
  · by_cases free : state.ring.buffer.sequenceAt state.ring.buffer.head = state.ring.buffer.head
    · simp [complete, advance, setThread, AccessBuffer.step, BufferCall.returned, pushed, valid, free,
        AccessBuffer.push, countReservation]
      funext other
      by_cases same : other = thread
      · simp [same]
      · simp [same]
    · simp [complete, advance, setThread, AccessBuffer.step, BufferCall.returned, pushed, valid, free,
        AccessBuffer.push]
  · simp [complete, setThread, BufferCall.returned, pushed, valid]

theorem popped_call (state : RingState w) (thread : Nat) :
    ((state.popped thread).threads thread).call =
      .popped (state.ring.buffer.pop.map Prod.fst) := by
  unfold popped
  split <;> simp [setThread, *]

theorem popped_counts (state : RingState w) (thread : Nat) :
    (state.popped thread).ring.accepted = state.ring.accepted ∧
      (state.popped thread).ring.claims =
        state.ring.claims + if state.ring.buffer.pop.isSome then 1 else 0 := by
  unfold popped
  split <;> simp [setThread, *]

/-! ### Alone on the buffer -/

def Still (state : RingState w) : Prop := ∀ thread, (state.threads thread).call.returned = true

variable {bits : Nat}

theorem still_held {owns : BufferCall w → Bool} {position : Nat} (still : state.Still)
    (busy : ∀ call, owns call = true → call.returned = false) :
    ¬ Held owns state.threads position := by
  rintro ⟨holder, holds, _⟩
  have ended := still holder
  rw [busy _ holds] at ended
  simp at ended

theorem still_published (invariant : state.Invariant bits) (still : state.Still) :
    (∀ position < state.ring.accepted.length, position ∈ state.ring.published) ∧
      ∀ position < state.ring.claims, position ∈ state.ring.released := by
  constructor
  · intro position below
    by_contra unpublished
    refine still_held still ?_ (invariant.written position below unpublished)
    intro call writes
    cases call <;> simp_all [BufferCall.writing, BufferCall.returned]
  · intro position below
    by_contra live
    refine still_held still ?_ (invariant.read position below live)
    intro call reads
    cases call <;> simp_all [BufferCall.reading, BufferCall.returned]

/-- A pop without interference fails only on an empty queue. -/
theorem still_pop_none (invariant : state.Invariant bits) (narrow : bits ≤ w) (still : state.Still)
    (failed : state.ring.buffer.pop = none) : state.ring.claims = state.ring.accepted.length := by
  by_contra different
  have queued := invariant.ring.queued
  have below : state.ring.claims < state.ring.accepted.length := by omega
  have room := invariant.ring.room
  have published := (still_published invariant still).1 state.ring.claims below
  have live : state.ring.claims ∉ state.ring.released := fun member =>
    Nat.lt_irrefl _ (invariant.ring.consumed _ member)
  have word := invariant.ring.cells (state.ring.claims + 2 ^ bits) room (by omega)
  rw [Nat.add_mod_right, Ring.phase_next, if_neg live, if_pos published] at word
  have ready : state.ring.buffer.sequenceAt state.ring.buffer.tail =
      state.ring.buffer.tail + 1#w := by
    rw [AccessBuffer.sequenceAt, invariant.ring.tail, Ring.cell_index invariant.ring narrow, word,
      BitVec.ofNat_add]
  simp [AccessBuffer.pop, ready] at failed

end RingState

end PulseMap
