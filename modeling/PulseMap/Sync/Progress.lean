import PulseMap.Library.Progress
import PulseMap.Sync.LockLevel

/-!
Calls return. In every state of every schedule of lock operations some thread can act while
a call is running, since a thread that waits does so for one that holds a lock of
higher rank; and what is left of the running calls only gets less. A thread panics on a
poisoned map only, after it has released what it held.
-/

namespace PulseMap

variable {config : SyncConfig}

/-- A thread has panicked under the write lock, after more buckets were asked for than can be
allocated. -/
def Poisoned (system : System (lockMachine config)) : Prop :=
  (LockedMap.map system.shared).poisoned = true ∧ (LockedMap.map system.shared).Oversized config

theorem Lock.level_le (lock : Lock) : lock.level ≤ 4 := by
  cases lock <;> simp [Lock.level, Lock.rank]

section Runs

variable {numBuckets : Nat} {moves : List (Move LockCall)}

theorem lock_run_panics (small : numBuckets ≤ SyncMap.maxBuckets)
    (sized : ∀ thread call, .call thread call ∈ moves → call.Sized) {thread : Nat}
    (panicked : (lockRun config numBuckets moves).programs thread = .panic) :
    Poisoned (lockRun config numBuckets moves) ∧
      SyncMap.Idle thread (LockedMap.map (lockRun config numBuckets moves).shared) := by
  obtain ⟨schedule, part, mirrors⟩ := lock_run_sections config numBuckets moves
  have same : LockedMap.map (lockRun config numBuckets moves).shared =
      (sectionRun config numBuckets schedule).shared := mirrors.shared
  have refines := mirrors.programs thread
  have holds := section_run_holds config small schedule fun other call member =>
    sized other call (part.subset member)
  have safe := holds.safe thread
  rw [panicked] at refines
  rw [Poisoned, same]
  generalize (sectionRun config numBuckets schedule).programs thread = program at refines safe
  cases refines with
  | panic =>
      have panics : SyncMap.poisoned (sectionRun config numBuckets schedule).shared = true ∧
        SyncMap.Idle thread (sectionRun config numBuckets schedule).shared := safe
      exact ⟨⟨panics.1, holds.invariant.poisoned panics.1⟩, panics.2⟩

section Stuck

variable {held : Nat → List Lock} {system : System (lockMachine config)} {thread : Nat}

theorem kept_order (kept : (lockAccount config).Kept held system) {action : LockAction}
    {next : action.Response → LockProgram config Unit} (program : system.programs thread = .act action next) :
    OrderedStep (held thread) action := by
  have follows := kept.follows thread
  rw [show system.programs thread = .act action next from program] at follows
  exact follows.1

theorem busy_of_holds (kept : (lockAccount config).Kept held system)
    (released : system.programs thread = .panic → SyncMap.Idle thread (LockedMap.map system.shared))
    {lock : Lock} (holds : LockedMap.Holds system.shared thread lock) :
    (system.programs thread).ended = false := by
  have follows := kept.follows thread
  have locks : LocksKept held system.shared := kept.invariant
  have member := (locks.holds thread lock).mpr holds
  cases program : system.programs thread with
  | done result =>
      rw [program] at follows
      have nothing : held thread = [] := follows
      rw [nothing] at member
      cases member
  | panic =>
      rw [program] at follows
      have between : Between (held thread) := follows
      have idle := released program
      rcases lock with _ | _ | bucketIdx | (_ | _) | _
      · exact absurd holds idle.reading
      · exact absurd holds idle.writing
      · exact absurd holds (idle.locks bucketIdx)
      · exact absurd member between.1
      · exact absurd holds idle.slab
      · exact absurd member between.2
  | act action next => rfl

/-- In a state that nobody can leave, whoever is inside a call waits for another. -/
theorem stuck_waits (kept : (lockAccount config).Kept held system)
    (released : ∀ thread, system.programs thread = .panic →
      SyncMap.Idle thread (LockedMap.map system.shared))
    (stuck : ¬∃ thread after, system.Acts after thread)
    (busy : (system.programs thread).ended = false) :
    (∃ lock, Requests system thread lock) ∧ ∃ other,
      (system.programs other).ended = false ∧ WaitsFor system thread other := by
  have locks : LocksKept held system.shared := kept.invariant
  cases program : system.programs thread with
  | done result =>
      rw [program] at busy
      cases busy
  | panic =>
      rw [program] at busy
      cases busy
  | act action next =>
      have waits : LockedMap.perform config thread action system.shared = none := by
        by_contra moves
        obtain ⟨after, acts⟩ := System.acts_of_performed program (Option.isSome_iff_ne_none.mpr moves)
        exact stuck ⟨thread, after, acts⟩
      obtain ⟨lock, other, wanted, acquires, _, holds, blocks⟩ :=
        blocked_waits locks (kept_order kept program) waits
      have requests : Requests system thread lock := ⟨action, next, program, acquires⟩
      exact ⟨⟨lock, requests⟩, other, busy_of_holds kept (released other) holds, lock, requests,
        Or.inl ⟨wanted, holds, blocks⟩⟩

/-- The locks asked for along such a chain climb, so there is no such state. -/
theorem some_thread_acts (kept : (lockAccount config).Kept held system)
    (released : ∀ thread, system.programs thread = .panic →
      SyncMap.Idle thread (LockedMap.map system.shared))
    (busy : (system.programs thread).ended = false) : ∃ thread after, system.Acts after thread := by
  by_contra stuck
  have above : ∀ thread lock other, Requests system thread lock →
      LockedMap.Holds system.shared thread other → other.rank < lock.rank := by
    rintro thread lock other ⟨action, next, program, acquires⟩ holds
    have locks : LocksKept held system.shared := kept.invariant
    exact (kept_order kept program).above lock acquires other ((locks.holds thread other).mpr holds)
  have climbs : ∀ level, ∃ thread lock, (system.programs thread).ended = false ∧
      Requests system thread lock ∧ level ≤ lock.level := by
    intro level
    induction level with
    | zero =>
        obtain ⟨⟨lock, requests⟩, _⟩ := stuck_waits kept released stuck busy
        exact ⟨thread, lock, busy, requests, Nat.zero_le _⟩
    | succ level induction =>
        obtain ⟨waiting, lock, waits, requests, high⟩ := induction
        obtain ⟨_, other, inside, waitsFor⟩ := stuck_waits kept released stuck waits
        obtain ⟨⟨higher, asks⟩, _⟩ := stuck_waits kept released stuck inside
        obtain ⟨same, again, less⟩ := chain_climbs above (.single waitsFor) asks
        rw [requests_unique again requests] at less
        exact ⟨other, higher, inside, asks, by omega⟩
  obtain ⟨_, lock, _, _, high⟩ := climbs 5
  have low := lock.level_le
  omega

end Stuck

def LockReached (config : SyncConfig) (numBuckets : Nat) (system : System (lockMachine config)) : Prop :=
  ∃ moves : List (Move LockCall), (∀ thread call, .call thread call ∈ moves → call.Sized) ∧
    system = lockRun config numBuckets moves

theorem lock_reached_acts {before after : System (lockMachine config)} {thread : Nat}
    (reached : LockReached config numBuckets before) (acts : before.Acts after thread) :
    LockReached config numBuckets after := by
  obtain ⟨moves, sized, rfl⟩ := reached
  refine ⟨moves ++ [.step thread], ?_, ?_⟩
  · intro other call member
    exact sized other call (by simpa using member)
  · rw [acts.step, lockRun, lockRun, System.run_append]
    rfl

theorem lock_reached_intact (small : numBuckets ≤ SyncMap.maxBuckets) {system : System (lockMachine config)}
    (reached : LockReached config numBuckets system) {thread : Nat}
    (panicked : system.programs thread = .panic) : Poisoned system := by
  obtain ⟨moves, sized, rfl⟩ := reached
  exact (lock_run_panics small sized panicked).1

theorem lock_reached_lively (small : numBuckets ≤ SyncMap.maxBuckets) {system : System (lockMachine config)}
    (reached : LockReached config numBuckets system) {thread : Nat}
    (busy : (system.programs thread).ended = false) : ∃ other after, system.Acts after other := by
  obtain ⟨moves, sized, rfl⟩ := reached
  obtain ⟨held, kept⟩ := lock_run_kept config numBuckets moves
  exact some_thread_acts kept (fun other panicked => (lock_run_panics small sized panicked).2) busy

theorem calls_return (config : SyncConfig) (numBuckets : Nat) (small : numBuckets ≤ SyncMap.maxBuckets)
    (moves : List (Move LockCall)) (sized : ∀ thread call, .call thread call ∈ moves → call.Sized) :
    (lockRun config numBuckets moves).RunsOut Poisoned := by
  have within : (lockRun config numBuckets moves).Within (System.callers moves) :=
    System.within_run (LockCall.program config) _ moves
  exact System.runs_out (fun _ _ _ => lock_reached_acts)
    (fun _ reached _ => lock_reached_intact small reached)
    (fun _ reached _ => lock_reached_lively small reached) ⟨moves, sized, rfl⟩ within

end Runs

theorem calls_return_two_threads :
    let moves : List (Move LockCall) :=
      [.call 0 (.call (.insert [7] [70] 0)), .step 0, .step 0, .step 0, .call 1 (.call (.resize 2)),
        .call 2 .loadFactor, .step 1, .step 1, .step 2]
    (∀ thread call, .call thread call ∈ moves → call.Sized) ∧
      (lockRun ⟨false, false, fun _ => 0⟩ 1 moves).RunsOut Poisoned := by
  intro moves
  have sized : ∀ thread call, .call thread call ∈ moves → call.Sized := by
    intro thread call member
    simp only [moves, List.mem_cons, Move.call.injEq, reduceCtorEq, List.not_mem_nil, or_false,
      false_or] at member
    rcases member with ⟨_, rfl⟩ | ⟨_, rfl⟩ | ⟨_, rfl⟩
    · change 1 + 1 < 2 ^ 32
      decide
    · trivial
    · trivial
  exact ⟨sized, calls_return _ 1 (by decide) moves sized⟩

end PulseMap
