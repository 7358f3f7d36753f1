import PulseMap.Sync.Stamps

/-!
The expiry check against the trace: it compares the ttl with the number of increments of
the epoch between the load that the stamp was written with and its own load.
-/

namespace PulseMap

open SyncProgram

variable {config : SyncConfig}

/-! ### The answers of a check -/

abbrev SyncSteps := List ((action : SyncAction) × action.Response)

/-- The ttl that a check goes by: the entry's own, or the default that it loads. -/
def Effective (entry : SlotTTL) (steps : SyncSteps) (ttl : Word) : Prop :=
  entry.ttl ≠ 0#64 ∧ ttl = entry.ttl ∨ entry.ttl = 0#64 ∧ ⟨.loadDefaultTtl, ttl⟩ ∈ steps

/-- What a check with this entry reports, and how it came to it: a ttl that never expires
is not compared, any other one is compared with the age at a load of the epoch. -/
def Reports (entry : SlotTTL) (ttl : Word) (steps : SyncSteps) (expired : Bool) : Prop :=
  (ttl = 0#64 ∨ ttl = BitVec.allOnes 64) ∧ expired = false ∨
    ttl ≠ 0#64 ∧ ttl ≠ BitVec.allOnes 64 ∧ ∃ before epoch,
      steps = before ++ [⟨SyncAction.loadEpoch, epoch⟩] ∧ expired = decide (ttl < epoch - entry.epoch)

theorem Reports.after {entry : SlotTTL} {ttl : Word} {steps : SyncSteps} {expired : Bool}
    (reports : Reports entry ttl steps expired) (step : (action : SyncAction) × action.Response) :
    Reports entry ttl (step :: steps) expired := by
  rcases reports with special | ⟨positive, finite, before, epoch, ends, answer⟩
  · exact Or.inl special
  · exact Or.inr ⟨positive, finite, step :: before, epoch, congrArg (step :: ·) ends, answer⟩

/-- A slot carries the stamp of the binding it holds, and a check of it is exact. -/
structure Dated (config : SyncConfig) (numBuckets : Nat) (moves : SyncMoves) : Prop where
  /-- The stamp of a Full slot of an unlocked bucket is at the end of the trail of its
  binding, and not ahead of the epoch. -/
  stored : ∀ bucketIdx (slot : Fin 4),
    let map : SyncMap := (syncRun config numBuckets moves).shared
    let stamp := map.layout.epochs (bucketIdx * 4 + slot.val)
    map.locks bucketIdx = none → (map.layout.buckets bucketIdx).metaWord.getState slot = .full →
    ∃ key value count, map.layout.content bucketIdx slot = some (key, value) ∧
      Trail key value (syncTrace config numBuckets moves) (.stamped stamp count) ∧
      stamp.epoch ≤ map.currentEpoch
  /-- Every check that a thread completes goes by the stamp of the binding that the slot
  holds. With a ttl that can expire it loads the epoch, and it reports that the entry is
  expired iff the epoch has moved by more than the ttl between the load that the stamp was
  written with and its own. -/
  checks : ∀ (past middle : SyncMoves) future thread bucketIdx (slot : Fin 4)
    (rest : Bool → SyncProgram config Unit) expired,
    moves = past ++ .step thread :: middle ++ future →
    (syncRun config numBuckets past).programs thread = isExpired bucketIdx slot >>= rest →
    let steps : SyncSteps := own thread
      ((syncRun config numBuckets past).trace (SyncCall.program config) (.step thread :: middle))
    (isExpired bucketIdx slot : SyncProgram config Bool).Answers steps expired →
    ∃ key value entry ttl count,
      (SyncMap.layout (syncRun config numBuckets past).shared).content bucketIdx slot =
        some (key, value) ∧
      Trail key value (syncTrace config numBuckets past) (.stamped entry count) ∧
      Effective entry steps ttl ∧
      ((ttl = 0#64 ∨ ttl = BitVec.allOnes 64) ∧ expired = false ∨
        ttl ≠ 0#64 ∧ ttl ≠ BitVec.allOnes 64 ∧ ∃ early late epoch,
          .step thread :: middle = early ++ .step thread :: late ∧
          (syncRun config numBuckets (past ++ early)).event (.step thread) =
            some (.acted thread SyncAction.loadEpoch epoch : Event (syncMachine config) SyncCall) ∧
          entry.epoch ≤ epoch ∧
          (expired = true ↔
            ttl.toNat < increments (syncTrace config numBuckets (past ++ early)) - count))

section Schedules

variable {numBuckets : Nat} {moves : SyncMoves}

end Schedules

end PulseMap
