import PulseMap.Engine.AccessBuffer

/-!
Any number of threads on one access buffer. A schedule starts calls and advances them
one atomic access at a time, in any order. The history kept beside the buffer numbers
the successful reservations and claims without wrapping: `accepted` lists the reserved
events, so that the index in it is the position reserved, and `claims` counts the claims.
-/

namespace PulseMap

variable {w : Nat}

structure Ring (w : Nat) where
  buffer : AccessBuffer w
  accepted : List (Access w)
  claims : Nat
  published : Finset Nat
  /-- What each finished pop returned, with the position it claimed. -/
  delivered : List (Nat × Access w)

/-- A thread's call, the position it loaded or owns, and the reservations that other
threads made since the call began. -/
structure RingThread (w : Nat) where
  call : BufferCall w
  position : Nat
  overlap : Nat

structure RingState (w : Nat) where
  ring : Ring w
  threads : Nat → RingThread w

inductive RingAction (w : Nat) where
  | push (thread : Nat) (event : Access w)
  | pop (thread : Nat)
  | step (thread : Nat)

def RingAction.thread {w : Nat} : RingAction w → Nat
  | push thread _ => thread
  | pop thread => thread
  | step thread => thread

namespace Ring

def new (capacity : Nat) : Ring w :=
  { buffer := AccessBuffer.new capacity, accepted := [], claims := 0, published := ∅, delivered := [] }

def released (self : Ring w) : List Nat := self.delivered.map Prod.fst

end Ring

namespace RingState

def new (capacity : Nat) : RingState w :=
  { ring := Ring.new capacity
    threads := fun _ => { call := .pushed false, position := 0, overlap := 0 } }

def setThread (self : RingState w) (thread : Nat) (entry : RingThread w) : RingState w :=
  { self with threads := Function.update self.threads thread entry }

def countReservation (self : RingState w) (thread : Nat) : RingState w :=
  { self with
    threads := fun other =>
      if other = thread then self.threads other
      else { self.threads other with overlap := (self.threads other).overlap + 1 } }

def start (self : RingState w) (thread : Nat) (call : BufferCall w) : RingState w :=
  if (self.threads thread).call.returned then
    self.setThread thread { call := call, position := 0, overlap := 0 }
  else self

/-- One atomic access of a thread's call, with the history it leaves. -/
def advance (self : RingState w) (thread : Nat) : RingState w :=
  let current := self.threads thread
  let ring := self.ring
  let (buffer, call) := ring.buffer.step current.call
  let moved := { self with ring := { ring with buffer := buffer } }
  match current.call, call with
  | .loadHead _, _ =>
      moved.setThread thread { current with call := call, position := ring.accepted.length }
  | .reserve event _, .storeData _ _ =>
      let counted := moved.countReservation thread
      { counted with
        ring := { counted.ring with accepted := ring.accepted ++ [event] } }.setThread thread
          { current with call := call, position := ring.accepted.length }
  | .publish _ _, _ =>
      { moved with
        ring := { moved.ring with published := insert current.position ring.published } }.setThread
          thread { current with call := call }
  | .loadTail, _ => moved.setThread thread { current with call := call, position := ring.claims }
  | .claim _, .loadData _ =>
      { moved with ring := { moved.ring with claims := ring.claims + 1 } }.setThread thread
        { current with call := call, position := ring.claims }
  | .release _ _, .popped (some event) =>
      { moved with
        ring := { moved.ring with
          delivered := ring.delivered ++ [(current.position, event)] } }.setThread thread
            { current with call := call }
  | _, _ => moved.setThread thread { current with call := call }

def act (self : RingState w) : RingAction w → RingState w
  | .push thread event => self.start thread (.push event)
  | .pop thread => self.start thread .pop
  | .step thread => self.advance thread

def run (self : RingState w) (actions : List (RingAction w)) : RingState w :=
  actions.foldl act self

/-- No unfinished call has been overlapped by half a turn of reservations. -/
def Unlapped (self : RingState w) : Prop :=
  ∀ thread, (self.threads thread).call.returned = false →
    (self.threads thread).overlap < 2 ^ (w - 1)

def UnlappedRun (self : RingState w) (actions : List (RingAction w)) : Prop :=
  ∀ past future, actions = past ++ future → (self.run past).Unlapped

/-! ### What an access leaves alone -/

theorem advance_buffer (state : RingState w) (thread : Nat) :
    (state.advance thread).ring.buffer =
      (state.ring.buffer.step (state.threads thread).call).1 := by
  unfold advance
  simp only
  split <;> simp [setThread, countReservation]

theorem advance_call (state : RingState w) (thread : Nat) :
    ((state.advance thread).threads thread).call =
      (state.ring.buffer.step (state.threads thread).call).2 := by
  unfold advance
  simp only
  split <;> simp [setThread, *]

theorem advance_other (state : RingState w) {thread other : Nat} (different : other ≠ thread) :
    ((state.advance thread).threads other).call = (state.threads other).call ∧
      ((state.advance thread).threads other).position = (state.threads other).position := by
  unfold advance
  simp only
  split <;> simp [setThread, countReservation, different]

end RingState

end PulseMap
