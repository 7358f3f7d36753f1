import PulseMap.Library.Layering
import PulseMap.Sync.Deadlock
import PulseMap.Sync.Reachable

/-!
The schedules of single lock operations and those of whole sections. Entering and leaving a
mutex leaves the map alone, so a schedule of lock operations leads to a map that a
schedule of sections leads to, and what holds of every section holds of them: the
invariant of the map, and that no thread panics.
-/

namespace PulseMap

def LockAction.Aside : LockAction → Prop
  | act _ => False
  | _ => True

/-- The map without the holders of its mutexes. -/
def lockLayering (config : SyncConfig) : Layering (lockMachine config) (syncMachine config) where
  project := LockedMap.map
  lift := LockAction.act
  answer := fun _ response => response
  Aside := LockAction.Aside
  performs := by
    intro thread action shared response after performed
    obtain ⟨_, map, done, rfl⟩ := LockedMap.perform_act performed
    exact done
  aside := by
    intro thread action shared response after aside performed
    cases action with
    | act action => exact aside.elim
    | fullSlots =>
        cases performed
        rfl
    | enter mutex =>
        cases mutex <;>
        · simp only [lockMachine, LockedMap.perform] at performed
          split_ifs at performed
          cases performed
          rfl
    | leave mutex => cases mutex <;> cases performed <;> rfl

/-! ### The programs -/

namespace LockProgram

variable {config : SyncConfig} {Result : Type}

abbrev Idles (program : LockProgram config Result) : Prop := (lockLayering config).Idles program

theorem idles_atomic {action : LockAction} (aside : action.Aside) :
    Idles (atomic action : LockProgram config _) := .act aside fun _ => .done _

theorem idles_visit (mutex : Mutex) : Idles (visit mutex : LockProgram config _) :=
  Layering.idles_bind (idles_atomic trivial) fun _ => idles_atomic trivial

theorem idles_visits (mutex : Mutex) (count : Nat) :
    Idles (visits mutex count : LockProgram config _) := by
  induction count with
  | zero => exact .done ()
  | succ count induction => exact Layering.idles_bind (idles_visit mutex) fun _ => induction

theorem idles_before (collected : Bool) (action : SyncAction) :
    Idles (before collected action : LockProgram config _) := by
  unfold before
  split
  · exact idles_atomic trivial
  · split_ifs
    · exact Layering.idles_bind (idles_visit .epochs) fun _ =>
        Layering.idles_bind (idles_atomic trivial) fun count => idles_visits .slab count
    · exact .done ()

theorem idles_after (action : SyncAction) (response : action.Response) :
    Idles (after action response : LockProgram config _) := by
  unfold after
  split
  · exact idles_atomic trivial
  · split
    · exact idles_visit .epochs
    · exact .done ()

/-- A program with its sections taken apart is that program. -/
theorem expand_refines (program : SyncProgram config Result) (collected : Bool) :
    (lockLayering config).Refines (program.expand collected) program := by
  induction program generalizing collected with
  | done result => exact .done result
  | panic => exact .panic
  | act action next induction =>
      apply Layering.refines_idle (idles_before collected action)
      intro _
      change (lockLayering config).Refines (.act (.act action) fun response =>
        after action response >>= fun _ =>
          SyncProgram.expand (collected || SyncAction.isRehash action) (next response)) _
      refine Layering.Refines.act action fun response => ?_
      exact Layering.refines_idle (idles_after action response) fun _ => induction response _

end LockProgram

/-! ### The sections of every call -/

namespace SyncMap

open SyncProgram

variable {config : SyncConfig} {exact : Prop} {thread : Nat} {map : SyncMap} {Result : Type}
  {post : Result → SyncMap → Prop}

theorem safe_look_layout (idle : Idle thread map) (next : Nat × Nat → SyncProgram config Result)
    (continues : ∀ sizes after, Idle thread after → Safe config exact thread (next sizes) post after) :
    Safe config exact thread (do
      readInner
      let sizes ← atomic .readLayout
      atomic .readUnlock
      next sizes) post map := by
  have always : Stable thread fun _ => True := fun _ _ _ _ => trivial
  apply safe_read_inner always (fun _ _ _ => trivial) trivial idle
  intro entered _ inside quiet _
  apply safe_read
  · intro current response after performed
    exact (Prod.mk.inj (Option.some.inj performed)).2.symm
  · intro current sizes rely _ _
    apply safe_read_unlock always (fun _ _ _ => trivial) trivial (inside_stable rely inside)
      (quiet_stable rely quiet)
    exact fun after _ idle _ => continues sizes after idle

end SyncMap

namespace LockCall

def Sized : LockCall → Prop
  | call request => request.Sized
  | _ => True

end LockCall

section Sections

variable {config : SyncConfig} {exact : Prop}

theorem safe_lock_call (request : LockCall) (sized : request.Sized) {thread : Nat} {map : SyncMap}
    (idle : SyncMap.Idle thread map) :
    (syncProtocol config exact).Safe thread (request.body config) (fun _ => SyncMap.Idle thread) map := by
  cases request with
  | call request => exact SyncMap.safe_program request sized idle
  | numBuckets =>
      apply Protocol.safe_bind
      apply SyncMap.safe_look_layout idle
      exact fun sizes after idle => idle
  | loadFactor =>
      apply Protocol.safe_bind
      apply SyncMap.safe_look_layout idle
      intro sizes after idle
      apply SyncMap.safe_read
      · intro current response after performed
        exact (Prod.mk.inj (Option.some.inj performed)).2.symm
      · exact fun current _ rely _ _ => SyncMap.idle_stable rely idle

def sectionRun (config : SyncConfig) (numBuckets : Nat) (moves : List (Move LockCall)) :
    System (syncMachine config) :=
  (syncSystem config numBuckets).run (LockCall.body config) moves

theorem section_run_holds (config : SyncConfig) {numBuckets : Nat} (small : numBuckets ≤ SyncMap.maxBuckets)
    (moves : List (Move LockCall)) (sized : ∀ thread call, .call thread call ∈ moves → call.Sized) :
    (syncProtocol config False).Holds SyncMap.Idle (sectionRun config numBuckets moves) := by
  apply Protocol.holds_run (LockCall.body config) LockCall.Sized
  · exact (sync_run_holds config False small [] (by simp [SyncMoves.Sized]) False.elim)
  · exact fun thread before after rely idle => SyncMap.idle_stable rely idle
  · exact fun thread call map sized _ idle => safe_lock_call call sized idle
  · exact fun _ _ _ impossible => impossible.elim
  · exact sized

theorem lock_run_sections (config : SyncConfig) (numBuckets : Nat) (moves : List (Move LockCall)) :
    ∃ schedule : List (Move LockCall), schedule.Sublist moves ∧
      (lockLayering config).Mirrors (lockRun config numBuckets moves) (sectionRun config numBuckets schedule) := by
  have start : (lockLayering config).Mirrors (lockRun config numBuckets []) (syncSystem config numBuckets) :=
    ⟨rfl, fun _ => .done ()⟩
  exact Layering.mirrors_run (fun call => LockProgram.expand_refines (call.body config) false) start moves

end Sections

end PulseMap
