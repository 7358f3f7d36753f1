import PulseMap.Sync.Section

/-!
The calls of the access buffer inside the map. A buffer call returns after at most five
accesses, whatever the other threads do in between, and what it returns points into the
buckets of the current layout.
-/

namespace PulseMap

namespace BufferCall

variable {w : Nat}

/-- The atomic accesses a call can still make. -/
def remaining : BufferCall w → Nat
  | loadHead _ => 5
  | checkFree _ _ => 4
  | reserve _ _ => 3
  | storeData _ _ => 2
  | publish _ _ => 1
  | loadTail => 5
  | checkPublished _ => 4
  | claim _ => 3
  | loadData _ => 2
  | release _ _ => 1
  | pushed _ => 0
  | popped _ => 0

theorem remaining_le (call : BufferCall w) : call.remaining ≤ 5 := by
  cases call <;> simp [remaining]

theorem returned_of_remaining {call : BufferCall w} (ended : call.remaining = 0) :
    call.returned = true := by
  cases call <;> simp_all [remaining, returned]

theorem step_remaining (buffer : AccessBuffer w) {call : BufferCall w}
    (busy : call.returned = false) : (buffer.step call).2.remaining < call.remaining := by
  cases call <;> simp only [returned, Bool.true_eq_false] at busy <;>
    simp only [AccessBuffer.step] <;> (try split_ifs) <;> simp [remaining]

end BufferCall

namespace SyncMap

open SyncProgram

variable {config : SyncConfig} {exact : Prop} {thread bucketIdx : Nat} {map : SyncMap}

/-! ### One call -/

section Call

variable {Facts : SyncMap → Prop} (stable : Stable thread Facts)
  (inside : ∀ map, Facts map → thread ∈ map.readers ∨ map.writer = some thread)
  (kept : ∀ map action, Facts map → Facts (map.bufferAct action))
include stable inside kept

theorem safe_complete_call (fuel : Nat) (call : BufferCall 64) (enough : call.remaining ≤ fuel)
    (facts : Facts map) (invariant : Invariant config exact map)
    (current : (map.accessBuffer.threads thread).call = call) :
    Safe config exact thread (completeCall fuel call)
      (fun result after => Facts after ∧ Invariant config exact after ∧
        (after.accessBuffer.threads thread).call = result ∧ result.returned = true) map := by
  induction fuel generalizing call map with
  | zero => exact ⟨facts, invariant, current, BufferCall.returned_of_remaining (by omega)⟩
  | succ fuel induction =>
      unfold completeCall
      split_ifs with ended
      · exact ⟨facts, invariant, current, ended⟩
      · apply safe_atomic
        intro before response after rely beforeInvariant assumed performed
        have here := stable map before rely facts
        have guarantee := guarantee_buffer beforeInvariant assumed (inside before here)
          (.step thread) rfl trivial
        simp only [perform] at performed
        obtain ⟨rfl, rfl⟩ := Prod.mk.inj (Option.some.inj performed)
        refine ⟨guarantee, induction _ ?_ (kept before _ here) guarantee.invariant rfl⟩
        have same : (before.accessBuffer.threads thread).call = call := rely.call.trans current
        have moved : ((before.bufferAct (.step thread)).accessBuffer.threads thread).call =
            (before.accessBuffer.ring.buffer.step call).2 := by
          rw [← same]
          exact RingState.advance_call before.accessBuffer thread
        have fewer := BufferCall.step_remaining before.accessBuffer.ring.buffer
          (Bool.eq_false_iff.mpr ended)
        rw [moved]
        omega

theorem safe_push (slot : Fin 4) (bound : ∀ map, Facts map → bucketIdx < map.layout.numBuckets)
    (facts : Facts map) :
    Safe config exact thread (push bucketIdx slot)
      (fun _ after => Facts after ∧ Invariant config exact after ∧ Quiet thread after) map := by
  apply safe_atomic
  intro before response after rely invariant assumed performed
  have here := stable map before rely facts
  have small : (BitVec.ofNat 64 bucketIdx).toNat < before.layout.numBuckets := by
    rw [BitVec.toNat_ofNat]
    exact (Nat.mod_le _ _).trans_lt (bound before here)
  have guarantee := guarantee_buffer invariant assumed (inside before here)
    (.push thread (BitVec.ofNat 64 bucketIdx, BitVec.ofNat 8 slot.val)) rfl small
  simp only [perform] at performed
  obtain ⟨rfl, rfl⟩ := Prod.mk.inj (Option.some.inj performed)
  refine ⟨guarantee, Protocol.safe_bind ?_⟩
  apply Protocol.safe_mono (safe_complete_call stable inside kept 5 _
    (BufferCall.remaining_le _) (kept before _ here) guarantee.invariant rfl)
  intro result final holds
  obtain ⟨finalFacts, finalInvariant, same, ended⟩ := holds
  refine ⟨finalFacts, finalInvariant, ?_⟩
  unfold Quiet
  rw [same]
  exact ended

theorem safe_pop (facts : Facts map) :
    Safe config exact thread pop
      (fun result after => Facts after ∧ Invariant config exact after ∧ Quiet thread after ∧
        ∀ event, result = some event → event.1.toNat < after.layout.numBuckets) map := by
  apply safe_atomic
  intro before response after rely invariant assumed performed
  have here := stable map before rely facts
  have guarantee := guarantee_buffer invariant assumed (inside before here) (.pop thread) rfl trivial
  simp only [perform] at performed
  obtain ⟨rfl, rfl⟩ := Prod.mk.inj (Option.some.inj performed)
  refine ⟨guarantee, Protocol.safe_bind ?_⟩
  apply Protocol.safe_mono (safe_complete_call stable inside kept 5 _
    (BufferCall.remaining_le _) (kept before _ here) guarantee.invariant rfl)
  intro result final holds
  obtain ⟨finalFacts, finalInvariant, same, ended⟩ := holds
  have quiet : Quiet thread final := by
    unfold Quiet
    rw [same]
    exact ended
  have carried := finalInvariant.inRange.calls thread
  rw [same] at carried
  cases result with
  | popped event =>
      refine ⟨finalFacts, finalInvariant, quiet, ?_⟩
      rintro found rfl
      exact carried
  | pushed accepted => exact ⟨finalFacts, finalInvariant, quiet, by simp⟩
  | loadHead | checkFree | reserve | storeData | publish | loadTail | checkPublished | claim
  | loadData | release => simp [BufferCall.returned] at ended

end Call

end SyncMap

end PulseMap
