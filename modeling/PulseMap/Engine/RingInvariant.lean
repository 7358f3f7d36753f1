import PulseMap.Engine.RingPhase

/-!
The threads on one access buffer. A call between its exchange and its sequence store
owns its position, and nobody else moves that cell on. `Agrees` says what a call knows at
each of its points; every access keeps it for all calls, and so does every schedule.
-/

namespace PulseMap

open Wrapping

variable {w bits : Nat}

namespace BufferCall

/-- A push between its reservation and its publication. -/
def writing : BufferCall w → Bool
  | storeData _ _ => true
  | publish _ _ => true
  | _ => false

/-- A pop between its claim and its release. -/
def reading : BufferCall w → Bool
  | loadData _ => true
  | release _ _ => true
  | _ => false

end BufferCall

namespace RingThread

/-- What a call knows about the ring at each of its points. -/
def Agrees (bits : Nat) (ring : Ring w) (self : RingThread w) : Prop :=
  match self.call with
  | .loadHead event => event.valid
  | .checkFree event head => event.valid ∧ head = BitVec.ofNat w self.position ∧
      self.position ≤ ring.accepted.length ∧
      ring.accepted.length ≤ self.position + self.overlap
  | .reserve event head => event.valid ∧ head = BitVec.ofNat w self.position ∧
      self.position ≤ ring.accepted.length ∧
      ring.accepted.length ≤ self.position + self.overlap ∧
      (self.position = ring.accepted.length → ring.Free bits self.position)
  | .storeData event head => head = BitVec.ofNat w self.position ∧
      ring.accepted[self.position]? = some event ∧ self.position ∉ ring.published
  | .publish event head => head = BitVec.ofNat w self.position ∧
      ring.accepted[self.position]? = some event ∧ self.position ∉ ring.published ∧
      (ring.buffer.buffer (self.position % 2 ^ bits)).data = event.encode
  | .checkPublished tail => tail = BitVec.ofNat w self.position ∧
      self.position ≤ ring.claims ∧
      ring.accepted.length ≤ self.position + 2 ^ bits + self.overlap
  | .claim tail => tail = BitVec.ofNat w self.position ∧ self.position ≤ ring.claims ∧
      ring.accepted.length ≤ self.position + 2 ^ bits + self.overlap ∧
      (self.position = ring.claims → self.position ∈ ring.published)
  | .loadData tail => tail = BitVec.ofNat w self.position ∧ self.position < ring.claims ∧
      self.position ∉ ring.released
  | .release tail data => tail = BitVec.ofNat w self.position ∧ self.position < ring.claims ∧
      self.position ∉ ring.released ∧
      ∃ event, ring.accepted[self.position]? = some event ∧ data = event.encode
  | .loadTail => True
  | .pushed _ => True
  | .popped _ => True

/-! ### What a call knows survives the accesses of other threads -/

variable {ring : Ring w} {thread : RingThread w}

theorem agrees_reserve (agrees : thread.Agrees bits ring) (event : Access w) :
    RingThread.Agrees bits (ring.reserve event)
      { thread with overlap := thread.overlap + 1 } := by
  obtain ⟨call, position, overlap⟩ := thread
  cases call <;> simp only [Agrees, Ring.reserve_accepted, Ring.reserve_claims,
    Ring.reserve_published, Ring.reserve_buffer_buffer, Ring.released_reserve, Ring.Free,
    List.length_append, List.length_singleton] at agrees ⊢
  case loadHead => exact agrees
  case checkFree => exact ⟨agrees.1, agrees.2.1, by omega, by omega⟩
  case reserve => exact ⟨agrees.1, agrees.2.1, by omega, by omega, by omega⟩
  case storeData =>
    have below := (List.getElem?_eq_some_iff.mp agrees.2.1).1
    rw [List.getElem?_append_left below]
    exact agrees
  case publish =>
    have below := (List.getElem?_eq_some_iff.mp agrees.2.1).1
    rw [List.getElem?_append_left below]
    exact agrees
  case checkPublished => exact ⟨agrees.1, agrees.2.1, by omega⟩
  case claim => exact ⟨agrees.1, agrees.2.1, by omega, agrees.2.2.2⟩
  case loadData => exact agrees
  case release =>
    obtain ⟨event', found, data⟩ := agrees.2.2.2
    have below := (List.getElem?_eq_some_iff.mp found).1
    rw [List.getElem?_append_left below]
    exact agrees

theorem agrees_store_data (narrow : bits ≤ w) (invariant : ring.Invariant bits)
    (agrees : thread.Agrees bits ring) {position : Nat} (event : Access w)
    (below : position < ring.accepted.length) (unpublished : position ∉ ring.published)
    (apart : thread.call.writing → thread.position ≠ position) :
    thread.Agrees bits (ring.storeData position event) := by
  obtain ⟨call, own, overlap⟩ := thread
  cases call
  case publish stored head =>
    obtain ⟨word, found, ownUnpublished, data⟩ := agrees
    have ownBelow := (List.getElem?_eq_some_iff.mp found).1
    refine ⟨word, found, ownUnpublished, ?_⟩
    have otherCell : own % 2 ^ bits ≠ position % 2 ^ bits := by
      intro same
      exact apart rfl (Ring.same_cell
        ⟨ownBelow, Ring.unpublished_window invariant ownUnpublished⟩
        ⟨below, Ring.unpublished_window invariant unpublished⟩ same)
    simp only [Ring.storeData_buffer, AccessBuffer.setData, Ring.cell_index invariant narrow]
    rw [Function.update_of_ne otherCell]
    exact data
  all_goals exact agrees

theorem agrees_publish (agrees : thread.Agrees bits ring) {position : Nat}
    (apart : thread.call.writing → thread.position ≠ position) :
    thread.Agrees bits (ring.publish position) := by
  obtain ⟨call, own, overlap⟩ := thread
  cases call
  case storeData =>
    have different : own ≠ position := apart rfl
    simp only [Agrees, Ring.publish_published, Finset.mem_insert, different, false_or] at agrees ⊢
    exact agrees
  case publish =>
    have different : own ≠ position := apart rfl
    simp only [Agrees, Ring.publish_published, Ring.publish_buffer, Ring.set_sequence_data,
      Finset.mem_insert, different, false_or] at agrees ⊢
    exact agrees
  case claim =>
    exact ⟨agrees.1, agrees.2.1, agrees.2.2.1, fun current =>
      Finset.mem_insert_of_mem (agrees.2.2.2 current)⟩
  all_goals exact agrees

theorem agrees_claim (agrees : thread.Agrees bits ring) : thread.Agrees bits ring.claim := by
  obtain ⟨call, own, overlap⟩ := thread
  cases call <;> simp only [Agrees, Ring.claim_claims, Ring.claim_accepted, Ring.claim_published,
    Ring.released_claim, Ring.claim_buffer_buffer, Ring.Free] at agrees ⊢
  case checkPublished => exact ⟨agrees.1, by omega, agrees.2.2⟩
  case claim => exact ⟨agrees.1, by omega, agrees.2.2.1, by omega⟩
  case loadData => exact ⟨agrees.1, by omega, agrees.2.2⟩
  case release => exact ⟨agrees.1, by omega, agrees.2.2⟩
  all_goals exact agrees

theorem agrees_release (agrees : thread.Agrees bits ring) {position : Nat} (event : Access w)
    (apart : thread.call.reading → thread.position ≠ position) :
    thread.Agrees bits (ring.release position event) := by
  obtain ⟨call, own, overlap⟩ := thread
  cases call
  case reserve =>
    obtain ⟨valid, word, low, high, free⟩ := agrees
    refine ⟨valid, word, low, high, ?_⟩
    intro current
    rcases free current with early | released
    · exact Or.inl early
    · exact Or.inr (by rw [Ring.released_release]; exact List.mem_append_left _ released)
  case publish =>
    simp only [Agrees, Ring.release_buffer, Ring.set_sequence_data] at agrees ⊢
    exact agrees
  case loadData =>
    have different : own ≠ position := apart rfl
    simp only [Agrees, Ring.released_release, List.mem_append, List.mem_singleton, different,
      or_false] at agrees ⊢
    exact agrees
  case release =>
    have different : own ≠ position := apart rfl
    simp only [Agrees, Ring.released_release, List.mem_append, List.mem_singleton, different,
      or_false] at agrees ⊢
    exact agrees
  all_goals exact agrees

end RingThread

namespace RingState

/-- Two calls in a phase that owns its position own different ones. -/
def Exclusive (owns : BufferCall w → Bool) (threads : Nat → RingThread w) : Prop :=
  ∀ thread other, owns (threads thread).call → owns (threads other).call →
    (threads thread).position = (threads other).position → thread = other

def Held (owns : BufferCall w → Bool) (threads : Nat → RingThread w) (position : Nat) : Prop :=
  ∃ thread, owns (threads thread).call ∧ (threads thread).position = position

structure Invariant (bits : Nat) (state : RingState w) : Prop where
  ring : state.ring.Invariant bits
  agrees : ∀ thread, (state.threads thread).Agrees bits state.ring
  oneWriter : Exclusive BufferCall.writing state.threads
  oneReader : Exclusive BufferCall.reading state.threads
  written : ∀ position < state.ring.accepted.length, position ∉ state.ring.published →
    Held BufferCall.writing state.threads position
  read : ∀ position < state.ring.claims, position ∉ state.ring.released →
    Held BufferCall.reading state.threads position

section Move

variable {owns : BufferCall w → Bool} {threads next : Nat → RingThread w} {thread : Nat}

theorem exclusive_move (exclusive : Exclusive owns threads)
    (others : ∀ other, other ≠ thread → (next other).call = (threads other).call ∧
      (next other).position = (threads other).position)
    (own : owns (next thread).call → ∀ other, other ≠ thread → owns (threads other).call →
      (threads other).position ≠ (next thread).position) : Exclusive owns next := by
  intro first second firstOwns secondOwns same
  by_cases firstMoved : first = thread
  · by_cases secondMoved : second = thread
    · rw [firstMoved, secondMoved]
    · obtain ⟨call, position⟩ := others second secondMoved
      subst firstMoved
      rw [call] at secondOwns
      exact absurd (position.symm.trans same.symm) (own firstOwns second secondMoved secondOwns)
  · obtain ⟨call, position⟩ := others first firstMoved
    rw [call] at firstOwns
    by_cases secondMoved : second = thread
    · subst secondMoved
      exact absurd (position.symm.trans same) (own secondOwns first firstMoved firstOwns)
    · obtain ⟨otherCall, otherPosition⟩ := others second secondMoved
      rw [otherCall] at secondOwns
      rw [position, otherPosition] at same
      exact exclusive first second firstOwns secondOwns same

theorem held_move {position : Nat} (held : Held owns threads position)
    (others : ∀ other, other ≠ thread → (next other).call = (threads other).call ∧
      (next other).position = (threads other).position)
    (notMoved : ¬(owns (threads thread).call ∧ (threads thread).position = position)) :
    Held owns next position := by
  obtain ⟨holder, holds, here⟩ := held
  have different : holder ≠ thread := by
    rintro rfl
    exact notMoved ⟨holds, here⟩
  obtain ⟨call, same⟩ := others holder different
  exact ⟨holder, by rw [call]; exact holds, same.trans here⟩

end Move

variable {state : RingState w}

/-- One thread moves: the ring invariant, its own new entry and the ownership of
positions are all that has to be shown. -/
theorem invariant_move (invariant : state.Invariant bits) (next : RingState w) (thread : Nat)
    (ring : next.ring.Invariant bits)
    (own : (next.threads thread).Agrees bits next.ring)
    (others : ∀ other, other ≠ thread → (next.threads other).call = (state.threads other).call ∧
      (next.threads other).position = (state.threads other).position)
    (agrees : ∀ other, other ≠ thread → (next.threads other).Agrees bits next.ring)
    (writes : (next.threads thread).call.writing → ∀ other, other ≠ thread →
      (state.threads other).call.writing →
      (state.threads other).position ≠ (next.threads thread).position)
    (reads : (next.threads thread).call.reading → ∀ other, other ≠ thread →
      (state.threads other).call.reading →
      (state.threads other).position ≠ (next.threads thread).position)
    (written : ∀ position < next.ring.accepted.length, position ∉ next.ring.published →
      ((next.threads thread).call.writing ∧ (next.threads thread).position = position) ∨
      (position < state.ring.accepted.length ∧ position ∉ state.ring.published ∧
        ¬((state.threads thread).call.writing ∧ (state.threads thread).position = position)))
    (read : ∀ position < next.ring.claims, position ∉ next.ring.released →
      ((next.threads thread).call.reading ∧ (next.threads thread).position = position) ∨
      (position < state.ring.claims ∧ position ∉ state.ring.released ∧
        ¬((state.threads thread).call.reading ∧ (state.threads thread).position = position))) :
    next.Invariant bits where
  ring := ring
  agrees := by
    intro other
    by_cases same : other = thread
    · rw [same]
      exact own
    · exact agrees other same
  oneWriter := exclusive_move invariant.oneWriter others writes
  oneReader := exclusive_move invariant.oneReader others reads
  written := by
    intro position below unpublished
    rcases written position below unpublished with here | ⟨oldBelow, oldUnpublished, notMoved⟩
    · exact ⟨thread, here⟩
    · exact held_move (invariant.written position oldBelow oldUnpublished) others notMoved
  read := by
    intro position below live
    rcases read position below live with here | ⟨oldBelow, oldLive, notMoved⟩
    · exact ⟨thread, here⟩
    · exact held_move (invariant.read position oldBelow oldLive) others notMoved

@[simp] theorem set_thread_ring (state : RingState w) (thread : Nat) (entry : RingThread w) :
    (state.setThread thread entry).ring = state.ring := rfl

@[simp] theorem set_thread_same (state : RingState w) (thread : Nat) (entry : RingThread w) :
    (state.setThread thread entry).threads thread = entry := by simp [setThread]

theorem set_thread_other (state : RingState w) {thread other : Nat} (entry : RingThread w)
    (different : other ≠ thread) :
    (state.setThread thread entry).threads other = state.threads other := by
  simp [setThread, different]

theorem invariant_set_thread (invariant : state.Invariant bits) (ring : Ring w) (thread : Nat)
    (entry : RingThread w) (ringInvariant : ring.Invariant bits) (own : entry.Agrees bits ring)
    (agrees : ∀ other, other ≠ thread → (state.threads other).Agrees bits ring)
    (writes : entry.call.writing → ∀ other, other ≠ thread → (state.threads other).call.writing →
      (state.threads other).position ≠ entry.position)
    (reads : entry.call.reading → ∀ other, other ≠ thread → (state.threads other).call.reading →
      (state.threads other).position ≠ entry.position)
    (written : ∀ position < ring.accepted.length, position ∉ ring.published →
      (entry.call.writing ∧ entry.position = position) ∨
      (position < state.ring.accepted.length ∧ position ∉ state.ring.published ∧
        ¬((state.threads thread).call.writing ∧ (state.threads thread).position = position)))
    (read : ∀ position < ring.claims, position ∉ ring.released →
      (entry.call.reading ∧ entry.position = position) ∨
      (position < state.ring.claims ∧ position ∉ state.ring.released ∧
        ¬((state.threads thread).call.reading ∧ (state.threads thread).position = position))) :
    ({ state with ring := ring }.setThread thread entry).Invariant bits := by
  apply invariant_move invariant _ thread
  · exact ringInvariant
  · simpa using own
  · intro other different
    rw [set_thread_other _ _ different]
    exact ⟨rfl, rfl⟩
  · intro other different
    rw [set_thread_other _ _ different]
    exact agrees other different
  · simpa using writes
  · simpa using reads
  · simpa using written
  · simpa using read

theorem invariant_observe (invariant : state.Invariant bits) (thread : Nat)
    (entry : RingThread w) (own : entry.Agrees bits state.ring)
    (noWrite : entry.call.writing = false ∧ (state.threads thread).call.writing = false)
    (noRead : entry.call.reading = false ∧ (state.threads thread).call.reading = false) :
    (state.setThread thread entry).Invariant bits := by
  apply invariant_set_thread invariant state.ring thread entry invariant.ring own
  · exact fun other _ => invariant.agrees other
  · simp [noWrite.1]
  · simp [noRead.1]
  · intro position below unpublished
    exact Or.inr ⟨below, unpublished, by simp [noWrite.2]⟩
  · intro position below live
    exact Or.inr ⟨below, live, by simp [noRead.2]⟩

/-! ### One lemma for each access -/

section Access

variable {thread position overlap : Nat}

theorem writing_owns (invariant : state.Invariant bits)
    (writes : (state.threads thread).call.writing) :
    (state.threads thread).position < state.ring.accepted.length ∧
      (state.threads thread).position ∉ state.ring.published := by
  have agrees := invariant.agrees thread
  cases call : (state.threads thread).call <;> simp only [call, BufferCall.writing,
    Bool.false_eq_true, RingThread.Agrees] at writes agrees
  case storeData => exact ⟨(List.getElem?_eq_some_iff.mp agrees.2.1).1, agrees.2.2⟩
  case publish => exact ⟨(List.getElem?_eq_some_iff.mp agrees.2.1).1, agrees.2.2.1⟩

theorem reading_owns (invariant : state.Invariant bits)
    (reads : (state.threads thread).call.reading) :
    (state.threads thread).position < state.ring.claims ∧
      (state.threads thread).position ∉ state.ring.released := by
  have agrees := invariant.agrees thread
  cases call : (state.threads thread).call <;> simp only [call, BufferCall.reading,
    Bool.false_eq_true, RingThread.Agrees] at reads agrees
  case loadData => exact ⟨agrees.2.1, agrees.2.2⟩
  case release => exact ⟨agrees.2.1, agrees.2.2.1⟩

theorem load_head_invariant (invariant : state.Invariant bits) {event : Access w}
    (here : state.threads thread = ⟨.loadHead event, position, overlap⟩) :
    (state.advance thread).Invariant bits := by
  have moved : state.advance thread = state.setThread thread
      ⟨.checkFree event state.ring.buffer.head, state.ring.accepted.length, overlap⟩ := by
    simp [advance, here, AccessBuffer.step]
  have valid : event.valid := by simpa [here, RingThread.Agrees] using invariant.agrees thread
  rw [moved]
  apply invariant_observe invariant
  · exact ⟨valid, invariant.ring.head, le_rfl, by simp⟩
  · simp [here, BufferCall.writing]
  · simp [here, BufferCall.reading]

theorem check_free_invariant (invariant : state.Invariant bits) (positive : 0 < bits)
    (narrow : bits + 2 ≤ w) {event : Access w} {head : BitVec w}
    (here : state.threads thread = ⟨.checkFree event head, position, overlap⟩) :
    (state.advance thread).Invariant bits := by
  have agrees := invariant.agrees thread
  simp only [here, RingThread.Agrees] at agrees
  obtain ⟨valid, word, low, high⟩ := agrees
  by_cases same : state.ring.buffer.sequenceAt head = head
  · have moved : state.advance thread = state.setThread thread
        ⟨.reserve event head, position, overlap⟩ := by
      simp [advance, here, AccessBuffer.step, same]
    rw [moved]
    apply invariant_observe invariant
    · refine ⟨valid, word, low, high, ?_⟩
      intro current
      simp only at current
      rw [word, current] at same
      rw [current]
      exact Ring.check_free invariant.ring positive narrow same
    · simp [here, BufferCall.writing]
    · simp [here, BufferCall.reading]
  · have moved : state.advance thread = state.setThread thread
        ⟨.pushed false, position, overlap⟩ := by
      simp [advance, here, AccessBuffer.step, same]
    rw [moved]
    apply invariant_observe invariant
    · trivial
    · simp [here, BufferCall.writing]
    · simp [here, BufferCall.reading]

theorem reserve_invariant (invariant : state.Invariant bits) (unlapped : state.Unlapped)
    {event : Access w} {head : BitVec w}
    (here : state.threads thread = ⟨.reserve event head, position, overlap⟩) :
    (state.advance thread).Invariant bits := by
  have agrees := invariant.agrees thread
  simp only [here, RingThread.Agrees] at agrees
  obtain ⟨valid, word, low, high, free⟩ := agrees
  by_cases same : state.ring.buffer.head = head
  · have bounded := unlapped thread (by simp [here, BufferCall.returned])
    simp only [here] at bounded
    -- Less than half a turn of reservations passed, so the head word is not an older one.
    have current : position = state.ring.accepted.length := by
      rw [word, invariant.ring.head] at same
      have turn : 2 ^ (w - 1) ≤ 2 ^ w := Nat.pow_le_pow_right (by decide) (by omega)
      exact word_injective low (by omega) same.symm
    subst current
    have moved : state.advance thread =
        ({ state with ring := state.ring.reserve event }.countReservation thread).setThread thread
          ⟨.storeData event head, state.ring.accepted.length, overlap⟩ := by
      simp [advance, here, AccessBuffer.step, same, Ring.reserve, countReservation, setThread]
    rw [moved]
    have fresh : state.ring.accepted.length ∉ state.ring.published := fun member =>
      Nat.lt_irrefl _ (invariant.ring.reserved _ member)
    apply invariant_move invariant _ thread
    · exact Ring.reserve_invariant invariant.ring valid (free rfl)
    · simp [RingThread.Agrees, countReservation, word, fresh]
    · intro other different
      simp [set_thread_other _ _ different, countReservation, different]
    · intro other different
      simpa [set_thread_other _ _ different, countReservation, different] using
        RingThread.agrees_reserve (invariant.agrees other) event
    · intro _ other _ writes
      have below := (writing_owns invariant writes).1
      simp only [set_thread_same]
      omega
    · simp [BufferCall.reading]
    · intro other below unpublished
      simp only [set_thread_ring, countReservation, Ring.reserve_accepted, List.length_append,
        List.length_singleton, Ring.reserve_published] at below unpublished
      by_cases last : other = state.ring.accepted.length
      · exact Or.inl (by simp [last, BufferCall.writing])
      · exact Or.inr ⟨by omega, unpublished, by simp [here, BufferCall.writing]⟩
    · intro other below live
      exact Or.inr ⟨below, live, by simp [here, BufferCall.reading]⟩
  · have moved : state.advance thread = state.setThread thread
        ⟨.pushed false, position, overlap⟩ := by
      simp [advance, here, AccessBuffer.step, same]
    rw [moved]
    apply invariant_observe invariant
    · trivial
    · simp [here, BufferCall.writing]
    · simp [here, BufferCall.reading]

theorem store_data_invariant (invariant : state.Invariant bits) (narrow : bits + 2 ≤ w)
    {event : Access w} {head : BitVec w}
    (here : state.threads thread = ⟨.storeData event head, position, overlap⟩) :
    (state.advance thread).Invariant bits := by
  have agrees := invariant.agrees thread
  simp only [here, RingThread.Agrees] at agrees
  obtain ⟨word, found, unpublished⟩ := agrees
  have below := (List.getElem?_eq_some_iff.mp found).1
  have moved : state.advance thread =
      { state with ring := state.ring.storeData position event }.setThread thread
        ⟨.publish event head, position, overlap⟩ := by
    simp [advance, here, AccessBuffer.step, Ring.storeData, word]
  have apart : ∀ other, other ≠ thread → (state.threads other).call.writing →
      (state.threads other).position ≠ position := by
    intro other different writes same
    exact different (invariant.oneWriter other thread writes (by simp [here, BufferCall.writing])
      (by simp [same, here]))
  rw [moved]
  apply invariant_set_thread invariant
  · exact Ring.store_data_invariant (by omega) invariant.ring below unpublished
  · refine ⟨word, found, unpublished, ?_⟩
    simp [AccessBuffer.setData, Ring.cell_index invariant.ring (by omega : bits ≤ w)]
  · intro other different
    exact RingThread.agrees_store_data (by omega) invariant.ring (invariant.agrees other) event below
      unpublished (apart other different)
  · exact fun _ => apart
  · simp [BufferCall.reading]
  · intro other otherBelow otherUnpublished
    by_cases same : other = position
    · exact Or.inl (by simp [same, BufferCall.writing])
    · exact Or.inr ⟨otherBelow, otherUnpublished, by simp [here, Ne.symm same]⟩
  · intro other otherBelow live
    exact Or.inr ⟨otherBelow, live, by simp [here, BufferCall.reading]⟩

theorem publish_invariant (invariant : state.Invariant bits) (narrow : bits + 2 ≤ w)
    {event : Access w} {head : BitVec w}
    (here : state.threads thread = ⟨.publish event head, position, overlap⟩) :
    (state.advance thread).Invariant bits := by
  have agrees := invariant.agrees thread
  simp only [here, RingThread.Agrees] at agrees
  obtain ⟨word, found, unpublished, stored⟩ := agrees
  have moved : state.advance thread =
      { state with ring := state.ring.publish position }.setThread thread
        ⟨.pushed true, position, overlap⟩ := by
    simp [advance, here, AccessBuffer.step, Ring.publish, word]
  rw [moved]
  apply invariant_set_thread invariant
  · exact Ring.publish_invariant (by omega) invariant.ring found unpublished stored
  · trivial
  · intro other different
    apply RingThread.agrees_publish (invariant.agrees other)
    intro writes same
    exact different (invariant.oneWriter other thread writes (by simp [here, BufferCall.writing])
      (by simp [same, here]))
  · simp [BufferCall.writing]
  · simp [BufferCall.reading]
  · intro other otherBelow otherUnpublished
    simp only [Ring.publish_published, Finset.mem_insert, not_or] at otherUnpublished
    exact Or.inr ⟨otherBelow, otherUnpublished.2, by simp [here, Ne.symm otherUnpublished.1]⟩
  · intro other otherBelow live
    exact Or.inr ⟨otherBelow, live, by simp [here, BufferCall.reading]⟩

theorem load_tail_invariant (invariant : state.Invariant bits)
    (here : state.threads thread = ⟨.loadTail, position, overlap⟩) :
    (state.advance thread).Invariant bits := by
  have moved : state.advance thread = state.setThread thread
      ⟨.checkPublished state.ring.buffer.tail, state.ring.claims, overlap⟩ := by
    simp [advance, here, AccessBuffer.step]
  rw [moved]
  apply invariant_observe invariant
  · have room := invariant.ring.room
    exact ⟨invariant.ring.tail, le_rfl, by simp only; omega⟩
  · simp [here, BufferCall.writing]
  · simp [here, BufferCall.reading]

theorem check_published_invariant (invariant : state.Invariant bits) (narrow : bits + 2 ≤ w)
    {tail : BitVec w} (here : state.threads thread = ⟨.checkPublished tail, position, overlap⟩) :
    (state.advance thread).Invariant bits := by
  have agrees := invariant.agrees thread
  simp only [here, RingThread.Agrees] at agrees
  obtain ⟨word, low, high⟩ := agrees
  by_cases same : state.ring.buffer.sequenceAt tail = tail + 1#w
  · have moved : state.advance thread = state.setThread thread
        ⟨.claim tail, position, overlap⟩ := by
      simp [advance, here, AccessBuffer.step, same]
    rw [moved]
    apply invariant_observe invariant
    · refine ⟨word, low, high, ?_⟩
      intro current
      simp only at current
      rw [word, current] at same
      rw [current]
      exact Ring.check_published invariant.ring narrow same
    · simp [here, BufferCall.writing]
    · simp [here, BufferCall.reading]
  · have moved : state.advance thread = state.setThread thread
        ⟨.popped none, position, overlap⟩ := by
      simp [advance, here, AccessBuffer.step, same]
    rw [moved]
    apply invariant_observe invariant
    · trivial
    · simp [here, BufferCall.writing]
    · simp [here, BufferCall.reading]

theorem claim_invariant (invariant : state.Invariant bits) (unlapped : state.Unlapped)
    (narrow : bits + 2 ≤ w) {tail : BitVec w}
    (here : state.threads thread = ⟨.claim tail, position, overlap⟩) :
    (state.advance thread).Invariant bits := by
  have agrees := invariant.agrees thread
  simp only [here, RingThread.Agrees] at agrees
  obtain ⟨word, low, high, published⟩ := agrees
  by_cases same : state.ring.buffer.tail = tail
  · have bounded := unlapped thread (by simp [here, BufferCall.returned])
    simp only [here] at bounded
    -- The tail never passes the head, so a lapped tail would need a lapped head.
    have current : position = state.ring.claims := by
      have queued := invariant.ring.queued
      have half : 2 * 2 ^ (w - 1) = 2 ^ w := by rw [← pow_succ']; congr 1; omega
      have quarter : 2 ^ bits * 2 ^ 2 ≤ 2 ^ w := by
        rw [← pow_add]
        exact Nat.pow_le_pow_right (by decide) narrow
      rw [word, invariant.ring.tail] at same
      exact word_injective low (by omega) same.symm
    subst current
    have moved : state.advance thread =
        { state with ring := state.ring.claim }.setThread thread
          ⟨.loadData tail, state.ring.claims, overlap⟩ := by
      simp [advance, here, AccessBuffer.step, same, Ring.claim]
    have fresh : state.ring.claims ∉ state.ring.released := fun member =>
      Nat.lt_irrefl _ (invariant.ring.consumed _ member)
    rw [moved]
    apply invariant_set_thread invariant
    · exact Ring.claim_invariant invariant.ring (published rfl)
    · exact ⟨word, by simp, fresh⟩
    · exact fun other _ => RingThread.agrees_claim (invariant.agrees other)
    · simp [BufferCall.writing]
    · intro _ other _ reads
      have below := (reading_owns invariant reads).1
      simp only
      omega
    · intro other below unpublished
      exact Or.inr ⟨below, unpublished, by simp [here, BufferCall.writing]⟩
    · intro other below live
      simp only [Ring.claim_claims] at below
      by_cases last : other = state.ring.claims
      · exact Or.inl (by simp [last, BufferCall.reading])
      · exact Or.inr ⟨by omega, live, by simp [here, BufferCall.reading]⟩
  · have moved : state.advance thread = state.setThread thread
        ⟨.popped none, position, overlap⟩ := by
      simp [advance, here, AccessBuffer.step, same]
    rw [moved]
    apply invariant_observe invariant
    · trivial
    · simp [here, BufferCall.writing]
    · simp [here, BufferCall.reading]

theorem load_data_invariant (invariant : state.Invariant bits) (narrow : bits + 2 ≤ w)
    {tail : BitVec w} (here : state.threads thread = ⟨.loadData tail, position, overlap⟩) :
    (state.advance thread).Invariant bits := by
  have agrees := invariant.agrees thread
  simp only [here, RingThread.Agrees] at agrees
  obtain ⟨word, claimed, live⟩ := agrees
  have published := invariant.ring.claimed position claimed
  have below := invariant.ring.reserved position published
  have moved : state.advance thread = state.setThread thread
      ⟨.release tail (state.ring.buffer.dataAt tail), position, overlap⟩ := by
    simp [advance, here, AccessBuffer.step]
  rw [moved]
  apply invariant_set_thread invariant state.ring
  · exact invariant.ring
  · refine ⟨word, claimed, live, state.ring.accepted[position], List.getElem?_eq_getElem below, ?_⟩
    rw [word, AccessBuffer.dataAt, Ring.cell_index invariant.ring (by omega)]
    exact invariant.ring.payload position _ (List.getElem?_eq_getElem below) published live
  · exact fun other _ => invariant.agrees other
  · simp [BufferCall.writing]
  · intro _ other different reads same
    exact different (invariant.oneReader other thread reads (by simp [here, BufferCall.reading])
      (by simpa [here] using same))
  · intro other otherBelow unpublished
    exact Or.inr ⟨otherBelow, unpublished, by simp [here, BufferCall.writing]⟩
  · intro other otherBelow otherLive
    by_cases same : other = position
    · exact Or.inl (by simp [same, BufferCall.reading])
    · exact Or.inr ⟨otherBelow, otherLive, by simp [here, Ne.symm same]⟩

theorem release_invariant (invariant : state.Invariant bits) (narrow : bits + 2 ≤ w) (wide : 8 ≤ w)
    {tail data : BitVec w} (here : state.threads thread = ⟨.release tail data, position, overlap⟩) :
    (state.advance thread).Invariant bits := by
  have agrees := invariant.agrees thread
  simp only [here, RingThread.Agrees] at agrees
  obtain ⟨word, claimed, live, event, found, loaded⟩ := agrees
  have decoded : Access.decode data = event := by
    rw [loaded]
    exact Access.decode_encode wide (invariant.ring.accepts event (List.mem_of_getElem? found))
  have moved : state.advance thread =
      { state with ring := state.ring.release position event }.setThread thread
        ⟨.popped (some event), position, overlap⟩ := by
    simp [advance, here, AccessBuffer.step, Ring.release, word, decoded]
  rw [moved]
  apply invariant_set_thread invariant
  · exact Ring.release_invariant (by omega) invariant.ring claimed live found
  · trivial
  · intro other different
    apply RingThread.agrees_release (invariant.agrees other)
    intro reads same
    exact different (invariant.oneReader other thread reads (by simp [here, BufferCall.reading])
      (by simp [same, here]))
  · simp [BufferCall.writing]
  · simp [BufferCall.reading]
  · intro other below unpublished
    exact Or.inr ⟨below, unpublished, by simp [here, BufferCall.writing]⟩
  · intro other below otherLive
    rw [Ring.released_release, List.mem_append, not_or, List.mem_singleton] at otherLive
    exact Or.inr ⟨below, otherLive.1, by simp [here, Ne.symm otherLive.2]⟩

theorem advance_returned (returned : (state.threads thread).call.returned) :
    state.advance thread = state := by
  have still : state.setThread thread (state.threads thread) = state := by simp [setThread]
  rcases here : state.threads thread with ⟨call, position, overlap⟩
  rw [here] at returned still
  cases call <;> simp only [BufferCall.returned, Bool.false_eq_true] at returned
  case pushed => simpa [advance, here, AccessBuffer.step] using still
  case popped => simpa [advance, here, AccessBuffer.step] using still

theorem advance_invariant (invariant : state.Invariant bits) (unlapped : state.Unlapped)
    (positive : 0 < bits) (narrow : bits + 2 ≤ w) (wide : 8 ≤ w) (thread : Nat) :
    (state.advance thread).Invariant bits := by
  rcases here : state.threads thread with ⟨call, position, overlap⟩
  cases call with
  | loadHead event => exact load_head_invariant invariant here
  | checkFree event head => exact check_free_invariant invariant positive narrow here
  | reserve event head => exact reserve_invariant invariant unlapped here
  | storeData event head => exact store_data_invariant invariant narrow here
  | publish event head => exact publish_invariant invariant narrow here
  | loadTail => exact load_tail_invariant invariant here
  | checkPublished tail => exact check_published_invariant invariant narrow here
  | claim tail => exact claim_invariant invariant unlapped narrow here
  | loadData tail => exact load_data_invariant invariant narrow here
  | release tail data => exact release_invariant invariant narrow wide here
  | pushed accepted =>
      rw [advance_returned (by simp [here, BufferCall.returned])]
      exact invariant
  | popped event =>
      rw [advance_returned (by simp [here, BufferCall.returned])]
      exact invariant

theorem start_invariant (invariant : state.Invariant bits) (thread : Nat) (call : BufferCall w)
    (own : RingThread.Agrees bits state.ring ⟨call, 0, 0⟩)
    (idle : call.writing = false ∧ call.reading = false) :
    (state.start thread call).Invariant bits := by
  unfold start
  split_ifs with returned
  · apply invariant_observe invariant thread _ own
    · refine ⟨idle.1, ?_⟩
      cases before : (state.threads thread).call <;> simp_all [BufferCall.returned, BufferCall.writing]
    · refine ⟨idle.2, ?_⟩
      cases before : (state.threads thread).call <;> simp_all [BufferCall.returned, BufferCall.reading]
  · exact invariant

theorem act_invariant (invariant : state.Invariant bits) (unlapped : state.Unlapped)
    (positive : 0 < bits) (narrow : bits + 2 ≤ w) (wide : 8 ≤ w) (action : RingAction w) :
    (state.act action).Invariant bits := by
  cases action with
  | push thread event =>
      apply start_invariant invariant
      · unfold BufferCall.push
        split_ifs with valid
        · exact valid
        · trivial
      · unfold BufferCall.push
        split_ifs <;> exact ⟨rfl, rfl⟩
  | pop thread => exact start_invariant invariant thread .pop trivial ⟨rfl, rfl⟩
  | step thread => exact advance_invariant invariant unlapped positive narrow wide thread

theorem run_invariant (invariant : state.Invariant bits) (positive : 0 < bits)
    (narrow : bits + 2 ≤ w) (wide : 8 ≤ w) (actions : List (RingAction w))
    (unlapped : state.UnlappedRun actions) : (state.run actions).Invariant bits := by
  induction actions generalizing state with
  | nil => exact invariant
  | cons action rest induction =>
      have here : state.Unlapped := unlapped [] (action :: rest) rfl
      have next := act_invariant invariant here positive narrow wide action
      apply induction next
      intro past future split
      exact unlapped (action :: past) future (by rw [split]; rfl)

end Access

end RingState

end PulseMap
