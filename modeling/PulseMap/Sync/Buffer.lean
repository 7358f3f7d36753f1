import PulseMap.Engine.RingDelivery

/-!
The access buffer inside the map. Every event pushed points into the current buckets, and
the number of buckets only grows, so whatever a pop returns points into them too. This
needs no bound on the reservations that overlap a call.
-/

namespace PulseMap

namespace BufferCall

/-- The event a call carries points into the first `limit` buckets. -/
def InRange (limit : Nat) : BufferCall 64 → Prop
  | loadHead event => event.valid ∧ event.1.toNat < limit
  | checkFree event _ => event.valid ∧ event.1.toNat < limit
  | reserve event _ => event.valid ∧ event.1.toNat < limit
  | storeData event _ => event.valid ∧ event.1.toNat < limit
  | publish event _ => event.valid ∧ event.1.toNat < limit
  | release _ data => (Access.decode data).1.toNat < limit
  | popped (some event) => event.1.toNat < limit
  | _ => True

end BufferCall

/-- Whatever a pop returns, lapped or not, it points into the first `limit` buckets. -/
structure RingState.InRange (limit : Nat) (state : RingState 64) : Prop where
  cells : ∀ cell, (Access.decode (state.ring.buffer.buffer cell).data).1.toNat < limit
  calls : ∀ thread, (state.threads thread).call.InRange limit

theorem step_in_range {buffer : AccessBuffer 64} {limit : Nat} {call : BufferCall 64}
    (cells : ∀ cell, (Access.decode (buffer.buffer cell).data).1.toNat < limit)
    (carried : call.InRange limit) :
    (∀ cell, (Access.decode ((buffer.step call).1.buffer cell).data).1.toNat < limit) ∧
      (buffer.step call).2.InRange limit := by
  cases call with
  | loadHead event => exact ⟨cells, carried⟩
  | checkFree event head =>
      refine ⟨cells, ?_⟩
      simp only [AccessBuffer.step]
      split_ifs
      · exact carried
      · trivial
  | reserve event head =>
      simp only [AccessBuffer.step]
      split_ifs
      · exact ⟨cells, carried⟩
      · exact ⟨cells, trivial⟩
  | storeData event head =>
      refine ⟨?_, carried⟩
      intro cell
      simp only [AccessBuffer.step, AccessBuffer.setData]
      by_cases same : cell = buffer.cell head
      · rw [same, Function.update_self, Access.decode_encode (by decide) carried.1]
        exact carried.2
      · rw [Function.update_of_ne same]
        exact cells cell
  | publish event head =>
      refine ⟨?_, trivial⟩
      intro cell
      rw [AccessBuffer.step, Ring.set_sequence_data]
      exact cells cell
  | loadTail => exact ⟨cells, trivial⟩
  | checkPublished tail =>
      refine ⟨cells, ?_⟩
      simp only [AccessBuffer.step]
      split_ifs <;> trivial
  | claim tail =>
      simp only [AccessBuffer.step]
      split_ifs <;> exact ⟨cells, trivial⟩
  | loadData tail => exact ⟨cells, cells _⟩
  | release tail data =>
      refine ⟨?_, carried⟩
      intro cell
      rw [AccessBuffer.step, Ring.set_sequence_data]
      exact cells cell
  | pushed accepted => exact ⟨cells, trivial⟩
  | popped event => exact ⟨cells, carried⟩

def RingAction.InRange (limit : Nat) : RingAction 64 → Prop
  | push _ event => event.1.toNat < limit
  | _ => True

namespace RingState

variable {w : Nat}

theorem start_other (state : RingState w) {thread other : Nat} (call : BufferCall w)
    (different : other ≠ thread) : (state.start thread call).threads other = state.threads other := by
  unfold start
  split_ifs
  · exact set_thread_other _ _ different
  · rfl

theorem start_ring (state : RingState w) (thread : Nat) (call : BufferCall w) :
    (state.start thread call).ring = state.ring := by
  unfold start
  split_ifs <;> rfl

theorem act_other (state : RingState w) (action : RingAction w) {other : Nat}
    (different : other ≠ action.thread) :
    ((state.act action).threads other).call = (state.threads other).call := by
  cases action with
  | push thread event => exact congrArg RingThread.call (start_other state _ different)
  | pop thread => exact congrArg RingThread.call (start_other state _ different)
  | step thread => exact (advance_other state different).1

theorem start_in_range {state : RingState 64} {limit : Nat} (inRange : state.InRange limit)
    (thread : Nat) {call : BufferCall 64} (carried : call.InRange limit) :
    (state.start thread call).InRange limit := by
  refine ⟨by rw [start_ring]; exact inRange.cells, ?_⟩
  intro other
  by_cases same : other = thread
  · subst same
    unfold start
    split_ifs
    · simpa using carried
    · exact inRange.calls other
  · rw [start_other _ _ same]
    exact inRange.calls other

theorem act_in_range {state : RingState 64} {limit : Nat} (inRange : state.InRange limit)
    {action : RingAction 64} (bounded : action.InRange limit) : (state.act action).InRange limit := by
  cases action with
  | push thread event =>
      apply start_in_range inRange
      unfold BufferCall.push
      split_ifs with valid
      · exact ⟨valid, bounded⟩
      · trivial
  | pop thread => exact start_in_range inRange thread trivial
  | step thread =>
      have stepped := step_in_range inRange.cells (inRange.calls thread)
      refine ⟨by rw [act, advance_buffer]; exact stepped.1, ?_⟩
      intro other
      by_cases same : other = thread
      · rw [same, act, advance_call]
        exact stepped.2
      · rw [act, (advance_other state same).1]
        exact inRange.calls other

theorem in_range_mono {state : RingState 64} {limit larger : Nat} (inRange : state.InRange limit)
    (grows : limit ≤ larger) : state.InRange larger := by
  refine ⟨fun cell => (inRange.cells cell).trans_le grows, ?_⟩
  intro thread
  have carried := inRange.calls thread
  cases call : (state.threads thread).call <;> rw [call] at carried
  case popped event =>
    cases event with
    | none => trivial
    | some event => exact carried.trans_le grows
  case release => exact carried.trans_le grows
  case loadHead => exact ⟨carried.1, carried.2.trans_le grows⟩
  case checkFree => exact ⟨carried.1, carried.2.trans_le grows⟩
  case reserve => exact ⟨carried.1, carried.2.trans_le grows⟩
  case storeData => exact ⟨carried.1, carried.2.trans_le grows⟩
  case publish => exact ⟨carried.1, carried.2.trans_le grows⟩
  all_goals trivial

theorem act_grows (state : RingState w) (action : RingAction w) :
    state.ring.accepted <+: (state.act action).ring.accepted ∧
      state.ring.delivered <+: (state.act action).ring.delivered := by
  cases action with
  | push thread event =>
      rw [act, start_ring]
      exact ⟨List.prefix_refl _, List.prefix_refl _⟩
  | pop thread =>
      rw [act, start_ring]
      exact ⟨List.prefix_refl _, List.prefix_refl _⟩
  | step thread =>
      unfold act advance
      simp only
      split <;> simp [setThread, countReservation]

end RingState

end PulseMap
