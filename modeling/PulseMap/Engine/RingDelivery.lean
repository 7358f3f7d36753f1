import PulseMap.Engine.RingInvariant

/-!
What the access buffer promises. Under any schedule in which no call is lapped, the pop
that claims a position returns the event reserved there, once, and no accepted event is
overwritten or passed over before that.
-/

namespace PulseMap

open Wrapping

variable {w : Nat}

/-- Every accepted event is delivered unchanged, at most once and in its turn. -/
structure RingState.Delivers (state : RingState w) : Prop where
  /-- The pop that claimed a position returned the event of the push that reserved it,
  and that push had published it. -/
  exact : ∀ position event, (position, event) ∈ state.ring.delivered →
    state.ring.accepted[position]? = some event ∧ position ∈ state.ring.published
  once : (state.ring.delivered.map Prod.fst).Nodup
  /-- Until its delivery a published event stays in its cell, marked for its consumer. -/
  intact : ∀ position event, state.ring.accepted[position]? = some event →
    position ∈ state.ring.published → position ∉ state.ring.delivered.map Prod.fst →
    state.ring.buffer.dataAt (BitVec.ofNat w position) = event.encode ∧
      state.ring.buffer.sequenceAt (BitVec.ofNat w position) = BitVec.ofNat w (position + 1)
  /-- An accepted event that is not published yet is still in the hands of its push. -/
  kept : ∀ position < state.ring.accepted.length, position ∉ state.ring.published →
    RingState.Held BufferCall.writing state.threads position
  /-- A position passed by the tail is delivered or in the hands of the pop that claimed it. -/
  inTurn : ∀ position < state.ring.claims, position ∈ state.ring.delivered.map Prod.fst ∨
    RingState.Held BufferCall.reading state.threads position
  /-- The words of the buffer are the counts of reservations and claims. -/
  words : state.ring.buffer.head = BitVec.ofNat w state.ring.accepted.length ∧
    state.ring.buffer.tail = BitVec.ofNat w state.ring.claims ∧
    state.ring.claims ≤ state.ring.accepted.length ∧
    state.ring.accepted.length ≤ state.ring.claims + state.ring.buffer.len

namespace RingState

variable {bits : Nat} {state : RingState w}

theorem delivers_of_invariant (invariant : state.Invariant bits) (narrow : bits ≤ w) :
    state.Delivers where
  exact := by
    intro position event member
    have delivered : position ∈ state.ring.released := List.mem_map_of_mem member
    exact ⟨invariant.ring.exact position event member,
      invariant.ring.claimed position (invariant.ring.consumed position delivered)⟩
  once := invariant.ring.once
  intact := by
    intro position event found published live
    have below := invariant.ring.reserved position published
    have inside := Ring.in_window invariant.ring live
    rw [AccessBuffer.dataAt, AccessBuffer.sequenceAt, Ring.cell_index invariant.ring narrow]
    refine ⟨invariant.ring.payload position event found published live, ?_⟩
    have word := invariant.ring.cells (position + 2 ^ bits) inside (by omega)
    have unreleased : position ∉ state.ring.released := live
    rwa [Nat.add_mod_right, Ring.phase_next, if_neg unreleased, if_pos published] at word
  kept := invariant.written
  inTurn := by
    intro position claimed
    by_cases delivered : position ∈ state.ring.released
    · exact Or.inl delivered
    · exact Or.inr (invariant.read position claimed delivered)
  words := by
    rw [invariant.ring.size]
    exact ⟨invariant.ring.head, invariant.ring.tail, invariant.ring.queued, invariant.ring.room⟩

theorem new_invariant (capacity bits : Nat) (size : nextPowerOfTwo (max capacity 64) = 2 ^ bits) :
    (RingState.new capacity : RingState w).Invariant bits where
  ring :=
    { size := size
      mask := by simp [new, Ring.new, AccessBuffer.new, size]
      head := rfl
      tail := rfl
      queued := le_rfl
      room := Nat.zero_le _
      cells := by
        intro position _ high
        have small : position < 2 ^ bits := by simpa [new, Ring.new] using high
        rw [Ring.phase_free (Or.inl small), Nat.mod_eq_of_lt small]
        rfl
      payload := by simp [new, Ring.new]
      accepts := by simp [new, Ring.new]
      claimed := by simp [new, Ring.new]
      reserved := by simp [new, Ring.new]
      consumed := by simp [new, Ring.new, Ring.released]
      reused := by simp [new, Ring.new]
      exact := by simp [new, Ring.new]
      once := by simp [new, Ring.new, Ring.released] }
  agrees := fun _ => trivial
  oneWriter := by simp [Exclusive, new, BufferCall.writing]
  oneReader := by simp [Exclusive, new, BufferCall.reading]
  written := by simp [new, Ring.new]
  read := by simp [new, Ring.new]

theorem capacity_bits (wide : 8 ≤ w) {capacity : Nat} (bounded : capacity ≤ 2 ^ (w - 2)) :
    ∃ bits, nextPowerOfTwo (max capacity 64) = 2 ^ bits ∧ 0 < bits ∧ bits + 2 ≤ w := by
  have minimum : 2 ^ 6 ≤ 2 ^ (w - 2) := Nat.pow_le_pow_right (by decide) (by omega)
  have upper : Nat.clog 2 (max capacity 64) ≤ w - 2 :=
    Nat.clog_le_of_le_pow (max_le bounded minimum)
  have lower : 0 < Nat.clog 2 (max capacity 64) :=
    Nat.clog_pos (by decide) (by omega)
  exact ⟨Nat.clog 2 (max capacity 64), rfl, lower, by omega⟩

theorem access_buffer_delivers (wide : 8 ≤ w) (capacity : Nat) (bounded : capacity ≤ 2 ^ (w - 2))
    (actions : List (RingAction w))
    (unlapped : (RingState.new capacity : RingState w).UnlappedRun actions) :
    ((RingState.new capacity : RingState w).run actions).Delivers := by
  obtain ⟨bits, size, positive, narrow⟩ := capacity_bits wide bounded
  have invariant := run_invariant (new_invariant capacity bits size) positive narrow wide actions unlapped
  exact delivers_of_invariant invariant (by omega)

/-! ### Short schedules -/

theorem overlap_set_thread (state : RingState w) (thread other : Nat) (entry : RingThread w)
    (own : entry.overlap ≤ (state.threads thread).overlap) :
    ((state.setThread thread entry).threads other).overlap ≤ (state.threads other).overlap := by
  by_cases same : other = thread
  · rw [same, set_thread_same]
    exact own
  · rw [set_thread_other _ _ same]

theorem overlap_advance (state : RingState w) (thread other : Nat) :
    ((state.advance thread).threads other).overlap ≤ (state.threads other).overlap + 1 := by
  unfold advance
  simp only
  split
  case h_2 =>
    refine (overlap_set_thread _ _ _ _ ?_).trans ?_
    · simp [countReservation]
    · simp only [countReservation]
      split_ifs <;> simp
  all_goals
    refine (overlap_set_thread _ _ _ _ ?_).trans ?_
    · exact le_rfl
    · exact Nat.le_succ _

theorem overlap_act (state : RingState w) (action : RingAction w) (other : Nat) :
    ((state.act action).threads other).overlap ≤ (state.threads other).overlap + 1 := by
  have started : ∀ thread call, ((state.start thread call).threads other).overlap ≤
      (state.threads other).overlap + 1 := by
    intro thread call
    unfold start
    split_ifs
    · exact (overlap_set_thread _ _ _ _ (Nat.zero_le _)).trans (Nat.le_succ _)
    · exact Nat.le_succ _
  cases action with
  | push thread event => exact started thread _
  | pop thread => exact started thread _
  | step thread => exact overlap_advance state thread other

theorem overlap_run (state : RingState w) (actions : List (RingAction w)) (other : Nat) :
    ((state.run actions).threads other).overlap ≤ (state.threads other).overlap + actions.length := by
  induction actions generalizing state with
  | nil => exact le_rfl
  | cons action rest induction =>
      have first := overlap_act state action other
      have later := induction (state.act action)
      simp only [run, List.foldl_cons, List.length_cons] at later ⊢
      omega

theorem unlapped_short (capacity : Nat) (actions : List (RingAction w))
    (short : actions.length < 2 ^ (w - 1)) :
    (RingState.new capacity : RingState w).UnlappedRun actions := by
  intro past future split thread _
  have bounded := overlap_run (RingState.new capacity : RingState w) past thread
  have shorter : past.length ≤ actions.length := by simp [split]
  have fresh : ((RingState.new capacity : RingState w).threads thread).overlap = 0 := rfl
  omega

/-- Two threads push, the later one publishes first, and a third thread pops. -/
def pushesMeetPops : List (RingAction w) :=
  [.push 0 (5#w, 2#8), .step 0, .step 0, .step 0, .push 2 (6#w, 1#8), .step 2, .step 2, .step 2,
    .step 2, .step 2, .pop 1, .step 1, .step 0, .step 0, .step 1, .push 0 (7#w, 3#8), .step 0, .step 1,
    .step 0, .step 1, .step 1, .pop 1, .step 1, .step 0, .step 1, .step 1, .step 0, .step 1, .step 0,
    .step 1]

theorem access_buffer_delivers_two_events :
    (2 ^ 6 ≤ 2 ^ (64 - 2)) ∧
      ((RingState.new 64 : RingState 64).run pushesMeetPops).ring.delivered =
        [(0, (5#64, 2#8)), (1, (6#64, 1#8))] ∧
      ((RingState.new 64 : RingState 64).run pushesMeetPops).Delivers :=
  ⟨by decide, by decide +kernel, access_buffer_delivers (by decide) 64 (by decide) pushesMeetPops
    (unlapped_short 64 pushesMeetPops (by decide))⟩

end RingState

end PulseMap
