import PulseMap.Engine.RingSolo
import PulseMap.Library.BoundedQueue

/-!
The access buffer as a queue. Whatever interleaving came before, once no call is under way
the buffer is a bounded queue of the events that were accepted and not delivered, and calls
that do not overlap act on it as the calls of that queue.
-/

namespace PulseMap

open Wrapping

variable {w bits : Nat} {σ : Type}

namespace BufferCall

def accepted : BufferCall w → Bool
  | pushed accepted => accepted
  | _ => false

def delivered : BufferCall w → Option (Access w)
  | popped event => event
  | _ => none

end BufferCall

/-! ### Calls that do not overlap -/

namespace RingState

def push (self : RingState w) (thread : Nat) (event : Access w) : Bool × RingState w :=
  let final := (self.act (.push thread event)).complete thread 5
  ((final.threads thread).call.accepted, final)

def pop (self : RingState w) (thread : Nat) : Option (Access w) × RingState w :=
  let final := (self.act (.pop thread)).complete thread 5
  ((final.threads thread).call.delivered, final)

/-- The callback carries a state; `error` is a callback that unwinds out of the loop. -/
def drain (self : RingState w) (thread : Nat) (callback : σ → Access w → Except σ σ) :
    Nat → σ → Except σ σ × RingState w
  | 0, world => (.ok world, self)
  | budget + 1, world =>
      match self.pop thread with
      | (none, rest) => (.ok world, rest)
      | (some event, rest) =>
          match callback world event with
          | .error world => (.error world, rest)
          | .ok world => rest.drain thread callback budget world

def clear (self : RingState w) (thread : Nat) : RingState w :=
  (self.drain thread (fun _ _ => .ok ()) self.ring.buffer.len ()).2

end RingState

inductive QueueCall (σ : Type) (w : Nat) where
  | push (thread : Nat) (event : Access w)
  | drain (thread : Nat) (budget : Nat) (callback : σ → Access w → Except σ σ)
  | clear (thread : Nat)

inductive QueueReply where
  | pushed (accepted : Bool)
  | drained (aborted : Bool)
  | cleared
  deriving DecidableEq

namespace QueueCall

/-- The reply of a drain, with the state its callback left. -/
def drained {State : Type} : Except σ σ × State → QueueReply × State × σ
  | (.ok world, rest) => (.drained false, rest, world)
  | (.error world, rest) => (.drained true, rest, world)

def runAll {State : Type} (perform : State × σ → QueueCall σ w → QueueReply × State × σ) :
    List (QueueCall σ w) → State × σ → List QueueReply × State × σ
  | [], point => ([], point)
  | call :: calls, point =>
      let (reply, next) := perform point call
      let (replies, final) := runAll perform calls next
      (reply :: replies, final)

end QueueCall

namespace RingState

def perform (point : RingState w × σ) : QueueCall σ w → QueueReply × RingState w × σ
  | .push thread event =>
      let (accepted, rest) := point.1.push thread event
      (.pushed accepted, rest, point.2)
  | .drain thread budget callback => QueueCall.drained (point.1.drain thread callback budget point.2)
  | .clear thread => (.cleared, point.1.clear thread, point.2)

end RingState

namespace BoundedQueue

variable {capacity : Nat}

/-- What the calls mean: an event with a slot or a bucket out of range is refused. -/
def perform (point : BoundedQueue (Access w) capacity × σ) :
    QueueCall σ w → QueueReply × BoundedQueue (Access w) capacity × σ
  | .push _ event =>
      if event.2 < 4#8 ∧ event.1 ≤ BitVec.allOnes w >>> 2 then
        let (accepted, rest) := point.1.push event
        (.pushed accepted, rest, point.2)
      else (.pushed false, point)
  | .drain _ budget callback => QueueCall.drained (point.1.drain callback budget point.2)
  | .clear _ => (.cleared, empty, point.2)

end BoundedQueue

namespace Ring

variable {ring : Ring w} {event : Access w}

def undelivered (self : Ring w) : List (Access w) :=
  (self.accepted.zipIdx.filter fun entry => entry.2 ∉ self.released).map Prod.fst

/-- Everything reserved is published, and everything claimed is delivered. -/
structure Settled (bits : Nat) (ring : Ring w) : Prop where
  invariant : ring.Invariant bits
  published : ∀ position < ring.accepted.length, position ∈ ring.published
  delivered : ∀ position < ring.claims, position ∈ ring.released

theorem filter_position (events : List (Access w)) (start bound : Nat) :
    ((events.zipIdx start).filter fun entry => decide (bound ≤ entry.2)).map Prod.fst =
      events.drop (bound - start) := by
  induction events generalizing start with
  | nil => simp
  | cons event events induction =>
      rw [List.zipIdx_cons]
      by_cases late : bound ≤ start
      · have next := induction (start + 1)
        rw [show bound - (start + 1) = 0 by omega, List.drop_zero] at next
        rw [List.filter_cons_of_pos (by simpa using late), List.map_cons, next,
          show bound - start = 0 by omega, List.drop_zero]
      · rw [List.filter_cons_of_neg (by simpa using late), induction,
          show bound - start = bound - (start + 1) + 1 by omega, List.drop_succ_cons]

theorem undelivered_settled (settled : ring.Settled bits) :
    ring.undelivered = ring.accepted.drop ring.claims := by
  have bound : ∀ position, (position ∉ ring.released) ↔ ring.claims ≤ position := by
    intro position
    constructor
    · intro live
      by_contra claimed
      exact live (settled.delivered position (by omega))
    · intro unclaimed member
      have claimed := settled.invariant.consumed position member
      omega
  have filtered := filter_position ring.accepted 0 ring.claims
  rw [Nat.sub_zero] at filtered
  rw [undelivered]
  simpa only [bound] using filtered

theorem settled_free (settled : ring.Settled bits) (positive : 0 < bits) (narrow : bits + 2 ≤ w) :
    ring.buffer.sequenceAt ring.buffer.head = ring.buffer.head ↔
      ring.accepted.length < ring.claims + 2 ^ bits := by
  have room : 0 < 2 ^ bits := by positivity
  rw [settled.invariant.head]
  constructor
  · intro same
    rcases check_free settled.invariant positive narrow same with early | released
    · omega
    · have claimed := settled.invariant.consumed _ released
      omega
  · intro fits
    have free : ring.Free bits ring.accepted.length := by
      by_cases early : ring.accepted.length < 2 ^ bits
      · exact Or.inl early
      · exact Or.inr (settled.delivered _ (by omega))
    have word := settled.invariant.cells ring.accepted.length le_rfl (by omega)
    rw [phase_free free] at word
    rw [AccessBuffer.sequenceAt, cell_index settled.invariant (by omega)]
    exact word

theorem settled_ready (settled : ring.Settled bits) (narrow : bits + 2 ≤ w) :
    ring.buffer.sequenceAt ring.buffer.tail = ring.buffer.tail + 1#w ↔
      ring.claims < ring.accepted.length := by
  rw [settled.invariant.tail]
  constructor
  · intro same
    exact settled.invariant.reserved _ (check_published settled.invariant narrow same)
  · intro below
    have room := settled.invariant.room
    have live : ring.claims ∉ ring.released := fun member =>
      Nat.lt_irrefl _ (settled.invariant.consumed _ member)
    have word := settled.invariant.cells (ring.claims + 2 ^ bits) room (by omega)
    rw [Nat.add_mod_right, phase_next, if_neg live, if_pos (settled.published _ below)] at word
    rw [AccessBuffer.sequenceAt, cell_index settled.invariant (by omega), word, BitVec.ofNat_add]

def enqueue (self : Ring w) (event : Access w) : Ring w :=
  ((self.reserve event).storeData self.accepted.length event).publish self.accepted.length

def dequeue (self : Ring w) (event : Access w) : Ring w := self.claim.release self.claims event

theorem enqueue_settled (settled : ring.Settled bits) (positive : 0 < bits) (narrow : bits + 2 ≤ w)
    (valid : event.valid)
    (free : ring.buffer.sequenceAt ring.buffer.head = ring.buffer.head) :
    (ring.enqueue event).Settled bits := by
  rw [settled.invariant.head] at free
  have fresh : ring.accepted.length ∉ ring.published := fun member =>
    Nat.lt_irrefl _ (settled.invariant.reserved _ member)
  have reserved := reserve_invariant settled.invariant valid
    (check_free settled.invariant positive narrow free)
  have stored : ((ring.reserve event).storeData ring.accepted.length event).Invariant bits :=
    store_data_invariant (by omega) reserved
      (by simp : ring.accepted.length < (ring.reserve event).accepted.length) (by simpa using fresh)
  have found : ((ring.reserve event).storeData ring.accepted.length event).accepted[
      ring.accepted.length]? = some event := by simp
  constructor
  · apply publish_invariant (by omega) stored found
    · simpa using fresh
    · simp [AccessBuffer.setData, cell_index reserved (by omega : bits ≤ w)]
  · intro position below
    simp only [enqueue, publish_accepted, storeData_accepted, reserve_accepted, List.length_append,
      List.length_singleton] at below
    by_cases last : position = ring.accepted.length
    · exact Finset.mem_insert.mpr (Or.inl last)
    · exact Finset.mem_insert_of_mem (settled.published position (by omega))
  · exact settled.delivered

theorem dequeue_settled (settled : ring.Settled bits) (narrow : bits + 2 ≤ w)
    (found : ring.accepted[ring.claims]? = some event) : (ring.dequeue event).Settled bits := by
  have below := (List.getElem?_eq_some_iff.mp found).1
  have live : ring.claims ∉ ring.released := fun member =>
    Nat.lt_irrefl _ (settled.invariant.consumed _ member)
  have claimed := claim_invariant settled.invariant (settled.published _ below)
  constructor
  · exact release_invariant (by omega) claimed (by simp) live found
  · exact settled.published
  · intro position early
    simp only [dequeue, release_claims, claim_claims] at early
    rw [dequeue, released_release, released_claim]
    by_cases last : position = ring.claims
    · simp [last]
    · exact List.mem_append_left _ (settled.delivered position (by omega))

theorem head_event (settled : ring.Settled bits) (narrow : bits + 2 ≤ w) (wide : 8 ≤ w)
    (found : ring.accepted[ring.claims]? = some event) :
    Access.decode (ring.buffer.dataAt ring.buffer.tail) = event := by
  have below := (List.getElem?_eq_some_iff.mp found).1
  have live : ring.claims ∉ ring.released := fun member =>
    Nat.lt_irrefl _ (settled.invariant.consumed _ member)
  have data := settled.invariant.payload _ event found (settled.published _ below) live
  rw [settled.invariant.tail, AccessBuffer.dataAt, cell_index settled.invariant (by omega), data]
  exact Access.decode_encode wide (settled.invariant.accepts event (List.mem_of_getElem? found))

theorem undelivered_length (settled : ring.Settled bits) :
    ring.claims + ring.undelivered.length = ring.accepted.length := by
  have queued := settled.invariant.queued
  rw [undelivered_settled settled, List.length_drop]
  omega

theorem undelivered_words (settled : ring.Settled bits) (narrow : bits + 2 ≤ w) :
    (ring.buffer.head - ring.buffer.tail).toNat = ring.undelivered.length := by
  have room := settled.invariant.room
  have length := undelivered_length settled
  have sizes : 2 ^ bits < 2 ^ w := Nat.pow_lt_pow_right (by decide) (by omega)
  rw [settled.invariant.head, settled.invariant.tail, ← length, BitVec.ofNat_add,
    BitVec.add_comm, BitVec.add_sub_cancel, BitVec.toNat_ofNat, Nat.mod_eq_of_lt (by omega)]

theorem undelivered_enqueue (settled : ring.Settled bits) (after : (ring.enqueue event).Settled bits) :
    (ring.enqueue event).undelivered = ring.undelivered ++ [event] := by
  rw [undelivered_settled settled, undelivered_settled after]
  exact List.drop_append_of_le_length settled.invariant.queued

theorem undelivered_dequeue (settled : ring.Settled bits) (after : (ring.dequeue event).Settled bits)
    (found : ring.accepted[ring.claims]? = some event) :
    ring.undelivered = event :: (ring.dequeue event).undelivered := by
  obtain ⟨below, here⟩ := List.getElem?_eq_some_iff.mp found
  rw [undelivered_settled settled, undelivered_settled after, List.drop_eq_getElem_cons below, here]
  rfl

end Ring

namespace RingState

variable {state final : RingState w} {thread : Nat} {event : Access w} {capacity : Nat}

/-- The buffer at rest holds exactly the events of the queue. -/
structure Represents (bits : Nat) (state : RingState w)
    (queue : BoundedQueue (Access w) capacity) : Prop where
  still : state.Still
  settled : state.ring.Settled bits
  size : capacity = 2 ^ bits
  items : queue.items = state.ring.undelivered

theorem still_moved (still : state.Still)
    (own : (final.threads thread).call.returned = true)
    (others : ∀ other, other ≠ thread → (final.threads other).call = (state.threads other).call) :
    final.Still := by
  intro other
  by_cases same : other = thread
  · rw [same]
    exact own
  · rw [others other same]
    exact still other

theorem pushed_call (state : RingState w) (thread : Nat) (event : Access w) :
    ((state.pushed thread event).threads thread).call = .pushed (state.ring.buffer.push event).1 := by
  by_cases valid : event.valid
  · by_cases free : (state.ring.buffer.push event).1
    · simp [pushed, valid, free]
    · simp [pushed, valid, free]
  · simp [pushed, valid, AccessBuffer.push]

theorem pushed_other (state : RingState w) (event : Access w) {other : Nat}
    (different : other ≠ thread) :
    ((state.pushed thread event).threads other).call = (state.threads other).call := by
  unfold pushed
  split_ifs <;> simp [setThread, countReservation, different]

theorem popped_other (state : RingState w) {other : Nat} (different : other ≠ thread) :
    ((state.popped thread).threads other).call = (state.threads other).call := by
  unfold popped
  split <;> simp [setThread, different]

theorem pushed_ring (settled : state.ring.Settled bits) (valid : event.valid)
    (free : state.ring.buffer.sequenceAt state.ring.buffer.head = state.ring.buffer.head) :
    (state.pushed thread event).ring = state.ring.enqueue event := by
  rw [settled.invariant.head] at free
  simp [pushed, AccessBuffer.push, valid, free, Ring.enqueue, Ring.publish, Ring.storeData,
    Ring.reserve, settled.invariant.head]

theorem pushed_refused (refused : (state.ring.buffer.push event).1 = false) :
    (state.pushed thread event).ring = state.ring := by
  unfold pushed
  split_ifs <;> simp_all

theorem popped_ring (settled : state.ring.Settled bits)
    (ready : state.ring.buffer.sequenceAt state.ring.buffer.tail = state.ring.buffer.tail + 1#w) :
    (state.popped thread).ring =
      state.ring.dequeue (Access.decode (state.ring.buffer.dataAt state.ring.buffer.tail)) := by
  rw [settled.invariant.tail] at ready ⊢
  simp [popped, AccessBuffer.pop, ready, Ring.dequeue, Ring.release, Ring.claim,
    settled.invariant.tail]

variable {queue : BoundedQueue (Access w) capacity}

theorem push_accepted (represents : state.Represents bits queue) (positive : 0 < bits)
    (narrow : bits + 2 ≤ w) (thread : Nat) (valid : event.valid)
    (room : queue.items.length < capacity) :
    (state.push thread event).1 = true ∧
      (state.push thread event).2.Represents bits (queue.push event).2 := by
  have settled := represents.settled
  have length := Ring.undelivered_length settled
  rw [represents.items, represents.size] at room
  have free := (Ring.settled_free settled positive narrow).mpr (by omega)
  have after := Ring.enqueue_settled settled positive narrow valid free
  have final := complete_push (represents.still thread) event
  have ring : (state.push thread event).2.ring = state.ring.enqueue event := by
    rw [push, final]
    exact pushed_ring settled valid free
  refine ⟨?_, ?_⟩
  · rw [push, final, pushed_call]
    simp [BufferCall.accepted, AccessBuffer.push, valid, free]
  · rw [BoundedQueue.push_room (by rw [represents.items, represents.size]; exact room)]
    refine ⟨?_, by rwa [ring], represents.size, ?_⟩
    · rw [push, final]
      apply still_moved represents.still
      · rw [pushed_call]
        rfl
      · exact fun other different => pushed_other state event different
    · rw [ring, Ring.undelivered_enqueue settled after]
      exact congrArg (· ++ [event]) represents.items

theorem push_refused (represents : state.Represents bits queue) (positive : 0 < bits)
    (narrow : bits + 2 ≤ w) (thread : Nat)
    (refused : ¬ (event.valid ∧ queue.items.length < capacity)) :
    (state.push thread event).1 = false ∧ (state.push thread event).2.Represents bits queue := by
  have settled := represents.settled
  have length := Ring.undelivered_length settled
  rw [represents.items, represents.size] at refused
  have final := complete_push (represents.still thread) event
  have kept : (state.ring.buffer.push event).1 = false := by
    rw [AccessBuffer.push, if_neg]
    rintro ⟨valid, free⟩
    have below := (Ring.settled_free settled positive narrow).mp free
    exact refused ⟨valid, by omega⟩
  have ring : (state.push thread event).2.ring = state.ring := by
    rw [push, final]
    exact pushed_refused kept
  refine ⟨?_, ?_, by rwa [ring], represents.size, by rw [ring, represents.items]⟩
  · rw [push, final, pushed_call, kept]
    rfl
  · rw [push, final]
    apply still_moved represents.still
    · rw [pushed_call]
      rfl
    · exact fun other different => pushed_other state event different

theorem pop_still (represents : state.Represents bits queue) (thread : Nat) :
    (state.pop thread).2.Still := by
  rw [pop, complete_pop (represents.still thread)]
  apply still_moved represents.still
  · rw [popped_call]
    rfl
  · exact fun other different => popped_other state different

theorem pop_item (represents : state.Represents bits queue) (narrow : bits + 2 ≤ w) (wide : 8 ≤ w)
    (thread : Nat) {later : BoundedQueue (Access w) capacity}
    (first : queue.items = event :: later.items) :
    (state.pop thread).1 = some event ∧ (state.pop thread).2.Represents bits later := by
  have settled := represents.settled
  have length := Ring.undelivered_length settled
  have items := represents.items
  rw [first] at items
  have below : state.ring.claims < state.ring.accepted.length := by
    rw [← items, List.length_cons] at length
    omega
  have found : state.ring.accepted[state.ring.claims]? = some event := by
    rw [Ring.undelivered_settled settled, List.drop_eq_getElem_cons below] at items
    rw [List.getElem?_eq_getElem below, (List.cons.inj items).1]
  have ready := (Ring.settled_ready settled narrow).mpr below
  have after := Ring.dequeue_settled settled narrow found
  have decoded := Ring.head_event settled narrow wide found
  have ring : (state.pop thread).2.ring = state.ring.dequeue event := by
    rw [pop, complete_pop (represents.still thread), popped_ring settled ready, decoded]
  refine ⟨?_, pop_still represents thread, by rwa [ring], represents.size, ?_⟩
  · rw [pop, complete_pop (represents.still thread), popped_call, AccessBuffer.pop, if_pos ready,
      decoded]
    rfl
  · rw [Ring.undelivered_dequeue settled after found] at items
    rw [ring]
    exact (List.cons.inj items).2

theorem pop_empty (represents : state.Represents bits queue) (narrow : bits + 2 ≤ w) (thread : Nat)
    (drained : queue.items = []) :
    (state.pop thread).1 = none ∧ (state.pop thread).2.Represents bits queue := by
  have settled := represents.settled
  have length := Ring.undelivered_length settled
  rw [← represents.items, drained, List.length_nil] at length
  have failed : state.ring.buffer.pop = none := by
    rw [AccessBuffer.pop, if_neg]
    intro ready
    have below := (Ring.settled_ready settled narrow).mp ready
    omega
  have ring : (state.pop thread).2.ring = state.ring := by
    rw [pop, complete_pop (represents.still thread), popped, failed]
    rfl
  refine ⟨?_, pop_still represents thread, by rwa [ring], represents.size,
    by rw [ring, represents.items]⟩
  rw [pop, complete_pop (represents.still thread), popped_call, failed]
  rfl

/-- One turn of the loop pops the item that the queue hands out next. -/
theorem drain_represents (represents : state.Represents bits queue) (narrow : bits + 2 ≤ w)
    (wide : 8 ≤ w) (thread : Nat) (callback : σ → Access w → Except σ σ) (budget : Nat) (world : σ) :
    (state.drain thread callback budget world).1 = (queue.drain callback budget world).1 ∧
      (state.drain thread callback budget world).2.Represents bits
        (queue.drain callback budget world).2 := by
  induction budget generalizing state queue world with
  | zero =>
      rw [BoundedQueue.drain_zero, drain]
      exact ⟨rfl, represents⟩
  | succ budget induction =>
      cases items : queue.items with
      | nil =>
          obtain ⟨none, rest⟩ := pop_empty represents narrow thread items
          rw [BoundedQueue.drain_nil _ _ items, drain]
          rcases popped : state.pop thread with ⟨event, after⟩
          rw [popped] at none rest
          obtain rfl : event = Option.none := none
          exact ⟨rfl, rest⟩
      | cons event tail =>
          have bounded := queue.bounded
          rw [items, List.length_cons] at bounded
          have first : queue.items = event :: (⟨tail, by omega⟩ : BoundedQueue _ capacity).items :=
            items
          obtain ⟨found, rest⟩ := pop_item represents narrow wide thread first
          rw [BoundedQueue.drain_succ _ first, drain]
          rcases popped : state.pop thread with ⟨head, after⟩
          rw [popped] at found rest
          obtain rfl : head = some event := found
          cases called : callback world event with
          | error stopped => exact ⟨by simp [called], by simpa [called] using rest⟩
          | ok next => simpa [called] using induction rest next

theorem clear_represents (represents : state.Represents bits queue) (narrow : bits + 2 ≤ w)
    (wide : 8 ≤ w) (thread : Nat) :
    (state.clear thread).Represents bits (BoundedQueue.empty : BoundedQueue (Access w) capacity) := by
  obtain ⟨_, rest⟩ := drain_represents represents narrow wide thread
    (fun (_ : Unit) _ => .ok ()) state.ring.buffer.len ()
  have length : state.ring.buffer.len = capacity :=
    represents.settled.invariant.size.trans represents.size.symm
  have removed := (@BoundedQueue.drain_total _ _ _ queue (fun (_ : Unit) _ => .ok ())
    (fun _ _ => ()) (fun _ _ => rfl) state.ring.buffer.len ()).2
  have emptied : (queue.drain (fun (_ : Unit) _ => .ok ()) state.ring.buffer.len ()).2 =
      BoundedQueue.empty := by
    apply BoundedQueue.items_injective
    rw [removed]
    apply List.drop_of_length_le
    rw [length]
    exact queue.bounded
  rwa [emptied] at rest

/-! ### Whole sequences of calls -/

/-- Equal replies and equal callback states, with the buffer still holding the queue. -/
def Matches (bits : Nat) (ring : QueueReply × RingState w × σ)
    (fifo : QueueReply × BoundedQueue (Access w) capacity × σ) : Prop :=
  ring.1 = fifo.1 ∧ ring.2.1.Represents bits fifo.2.1 ∧ ring.2.2 = fifo.2.2

theorem perform_matches (represents : state.Represents bits queue) (positive : 0 < bits)
    (narrow : bits + 2 ≤ w) (wide : 8 ≤ w) (call : QueueCall σ w) (world : σ) :
    Matches bits (perform (state, world) call) (BoundedQueue.perform (queue, world) call) := by
  cases call with
  | push thread event =>
      by_cases valid : event.2 < 4#8 ∧ event.1 ≤ BitVec.allOnes w >>> 2
      · have checked : event.valid = true := by simpa [Access.valid] using valid
        rw [perform, BoundedQueue.perform, if_pos valid]
        by_cases room : queue.items.length < capacity
        · obtain ⟨accepted, rest⟩ := push_accepted represents positive narrow thread checked room
          have same : (state.push thread event).1 = (queue.push event).1 := by
            rw [accepted, BoundedQueue.push_room room]
          exact ⟨congrArg QueueReply.pushed same, rest, rfl⟩
        · obtain ⟨refused, rest⟩ := push_refused represents positive narrow thread
            (fun both => room both.2 : ¬ (event.valid ∧ _))
          rw [BoundedQueue.push_full room]
          exact ⟨congrArg QueueReply.pushed refused, rest, rfl⟩
      · have unchecked : ¬ event.valid = true := by simpa [Access.valid] using valid
        obtain ⟨refused, rest⟩ := push_refused represents positive narrow thread
          (fun both => unchecked both.1 : ¬ (event.valid ∧ _))
        rw [perform, BoundedQueue.perform, if_neg valid]
        exact ⟨congrArg QueueReply.pushed refused, rest, rfl⟩
  | drain thread budget callback =>
      obtain ⟨outcome, rest⟩ := drain_represents represents narrow wide thread callback budget world
      rw [perform, BoundedQueue.perform]
      rcases drained : state.drain thread callback budget world with ⟨left, final⟩
      rcases handed : queue.drain callback budget world with ⟨right, later⟩
      rw [drained, handed] at outcome rest
      obtain rfl : left = right := outcome
      cases left with
      | error stopped => exact ⟨rfl, rest, rfl⟩
      | ok next => exact ⟨rfl, rest, rfl⟩
  | clear thread => exact ⟨rfl, clear_represents represents narrow wide thread, rfl⟩

theorem run_matches (represents : state.Represents bits queue) (positive : 0 < bits)
    (narrow : bits + 2 ≤ w) (wide : 8 ≤ w) (calls : List (QueueCall σ w)) (world : σ) :
    (QueueCall.runAll perform calls (state, world)).1 =
        (QueueCall.runAll BoundedQueue.perform calls (queue, world)).1 ∧
      (QueueCall.runAll perform calls (state, world)).2.1.Represents bits
        (QueueCall.runAll BoundedQueue.perform calls (queue, world)).2.1 ∧
      (QueueCall.runAll perform calls (state, world)).2.2 =
        (QueueCall.runAll BoundedQueue.perform calls (queue, world)).2.2 := by
  induction calls generalizing state queue world with
  | nil => exact ⟨rfl, represents, rfl⟩
  | cons call calls induction =>
      obtain ⟨reply, rest, carried⟩ := perform_matches represents positive narrow wide call world
      rw [QueueCall.runAll, QueueCall.runAll]
      rcases moved : perform (state, world) call with ⟨answer, final, after⟩
      rcases meant : BoundedQueue.perform (queue, world) call with ⟨expected, later, follows⟩
      rw [moved, meant] at reply rest carried
      obtain rfl : answer = expected := reply
      obtain rfl : after = follows := carried
      obtain ⟨replies, last, left⟩ := induction rest after
      exact ⟨congrArg (answer :: ·) replies, last, left⟩

/-- The queue that a buffer at rest is: its events are those accepted and not delivered, and
their number is the distance of the two words. -/
structure Holds (state : RingState w) (queue : BoundedQueue (Access w) capacity) : Prop where
  still : state.Still
  size : state.ring.buffer.len = capacity
  items : queue.items = state.ring.undelivered
  words : (state.ring.buffer.head - state.ring.buffer.tail).toNat = queue.items.length

theorem holds_of_represents (represents : state.Represents bits queue) (narrow : bits + 2 ≤ w) :
    state.Holds queue where
  still := represents.still
  size := represents.settled.invariant.size.trans represents.size.symm
  items := represents.items
  words := by rw [represents.items, Ring.undelivered_words represents.settled narrow]

theorem settled_of_still (invariant : state.Invariant bits) (still : state.Still) :
    state.ring.Settled bits := by
  obtain ⟨published, delivered⟩ := still_published invariant still
  exact ⟨invariant.ring, published, delivered⟩

theorem quiescent_buffer_is_bounded_queue (wide : 8 ≤ w) (capacity : Nat)
    (bounded : capacity ≤ 2 ^ (w - 2)) (actions : List (RingAction w))
    (unlapped : (RingState.new capacity : RingState w).UnlappedRun actions)
    (quiescent : ((RingState.new capacity : RingState w).run actions).Still) :
    ∃ queue : BoundedQueue (Access w) (nextPowerOfTwo (max capacity 64)),
      ((RingState.new capacity : RingState w).run actions).Holds queue ∧
      ∀ {σ : Type} (calls : List (QueueCall σ w)) (world : σ),
        let ring := QueueCall.runAll perform calls ((RingState.new capacity).run actions, world)
        let fifo := QueueCall.runAll BoundedQueue.perform calls (queue, world)
        ring.1 = fifo.1 ∧ ring.2.1.Holds fifo.2.1 ∧ ring.2.2 = fifo.2.2 := by
  obtain ⟨bits, size, positive, narrow⟩ := capacity_bits wide bounded
  have invariant := run_invariant (new_invariant capacity bits size) positive narrow wide actions
    unlapped
  have settled := settled_of_still invariant quiescent
  have fits : ((RingState.new capacity : RingState w).run actions).ring.undelivered.length ≤
      nextPowerOfTwo (max capacity 64) := by
    have length := Ring.undelivered_length settled
    have room := settled.invariant.room
    omega
  have represents : ((RingState.new capacity : RingState w).run actions).Represents bits
      (⟨_, fits⟩ : BoundedQueue (Access w) (nextPowerOfTwo (max capacity 64))) :=
    ⟨quiescent, settled, size, rfl⟩
  refine ⟨_, holds_of_represents represents narrow, ?_⟩
  intro σ calls world
  obtain ⟨replies, final, left⟩ := run_matches represents positive narrow wide calls world
  exact ⟨replies, holds_of_represents final narrow, left⟩

/-! ### A schedule of two threads -/

theorem idle_act (state : RingState w) {action : RingAction w} {thread : Nat}
    (other : action.thread ≠ thread) :
    ((state.act action).threads thread).call = (state.threads thread).call := by
  cases action with
  | push mover event =>
      have different : thread ≠ mover := Ne.symm other
      rw [act, start]
      split_ifs
      · rw [set_thread_other _ _ different]
      · rfl
  | pop mover =>
      have different : thread ≠ mover := Ne.symm other
      rw [act, start]
      split_ifs
      · rw [set_thread_other _ _ different]
      · rfl
  | step mover => exact (advance_other state (Ne.symm other)).1

theorem idle_run (state : RingState w) (actions : List (RingAction w)) {thread : Nat}
    (absent : ∀ action ∈ actions, action.thread ≠ thread) :
    ((state.run actions).threads thread).call = (state.threads thread).call := by
  induction actions generalizing state with
  | nil => rfl
  | cons action rest induction =>
      obtain ⟨first, others⟩ := List.forall_mem_cons.mp absent
      exact (induction (state.act action) others).trans (idle_act state first)

theorem pushes_meet_pops_still : ((RingState.new 64 : RingState 64).run pushesMeetPops).Still := by
  intro thread
  by_cases three : thread < 3
  · have small : ∀ thread < 3,
        (((RingState.new 64 : RingState 64).run pushesMeetPops).threads thread).call.returned = true := by
      decide +kernel
    exact small thread three
  · rw [idle_run]
    · rfl
    · intro action member
      have bound : ∀ action ∈ (pushesMeetPops : List (RingAction 64)), action.thread < 3 := by
        simp [pushesMeetPops, RingAction.thread]
      have below := bound action member
      omega

theorem quiescent_buffer_is_bounded_queue_one_left :
    2 ^ 6 ≤ 2 ^ (64 - 2) ∧ ∃ queue : BoundedQueue (Access 64) (nextPowerOfTwo (max 64 64)),
      ((RingState.new 64 : RingState 64).run pushesMeetPops).Holds queue ∧
      queue.items = [(7#64, 3#8)] ∧
      ∀ {σ : Type} (calls : List (QueueCall σ 64)) (world : σ),
        let ring := QueueCall.runAll perform calls ((RingState.new 64).run pushesMeetPops, world)
        let fifo := QueueCall.runAll BoundedQueue.perform calls (queue, world)
        ring.1 = fifo.1 ∧ ring.2.1.Holds fifo.2.1 ∧ ring.2.2 = fifo.2.2 := by
  obtain ⟨queue, holds, matched⟩ := quiescent_buffer_is_bounded_queue (by decide : 8 ≤ 64) 64
    (by decide) pushesMeetPops (unlapped_short 64 pushesMeetPops (by decide)) pushes_meet_pops_still
  have left : ((RingState.new 64 : RingState 64).run pushesMeetPops).ring.undelivered =
      [(7#64, 3#8)] := by decide +kernel
  exact ⟨by decide, queue, holds, holds.items.trans left, matched⟩

end RingState

end PulseMap
