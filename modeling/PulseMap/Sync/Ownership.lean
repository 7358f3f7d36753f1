import PulseMap.Sync.SlabSections

/-!
The slab pool under every interleaving of the calls. A slot whose index is freed while its
bytes still name it is no owner; the index allocated for it is already owned by the thread.
-/

namespace PulseMap

open FreeList

variable {config : SyncConfig} {events : SyncEvents config} {map : SyncMap}

/-- A Full slab-mode slot whose index is not freed by the thread that holds its bucket. -/
structure Settled (events : SyncEvents config) (map : SyncMap) (position : Position) (idx : Nat) :
    Prop where
  full : (map.layout.buckets position.1).metaWord.getState position.2 = .full
  slab : ((map.layout.buckets position.1).slots position.2).slabIndex = some idx
  kept : ∀ thread, map.locks position.1 = some thread →
    (slabWork thread events).freed ≠ some (position, idx)

/-- An index that a thread has allocated for a slot it has not written yet. -/
def Granted (events : SyncEvents config) (thread : Nat) (position : Position) (idx : Nat) : Prop :=
  (slabWork thread events).allocated = some (position, idx)

/-- Every index of the pool has one place: a settled slot, a thread or the free list. -/
structure SlabOwned (events : SyncEvents config) (map : SyncMap) : Prop where
  freeDistinct : map.layout.slabPool.freeList.Nodup
  freeBound : ∀ idx ∈ map.layout.slabPool.freeList, idx < map.layout.slabPool.entries.length
  inside : ∀ thread position idx, Granted events thread position idx →
    map.locks position.1 = some thread
  settledBound : ∀ position idx, Settled events map position idx →
    position.1 < map.layout.numBuckets ∧ idx < map.layout.slabPool.entries.length ∧
      idx ∉ map.layout.slabPool.freeList
  grantedBound : ∀ thread position idx, Granted events thread position idx →
    idx < map.layout.slabPool.entries.length ∧ idx ∉ map.layout.slabPool.freeList
  settledOnce : ∀ position other idx, Settled events map position idx →
    Settled events map other idx → position = other
  grantedOnce : ∀ thread other position place idx, Granted events thread position idx →
    Granted events other place idx → thread = other ∧ position = place
  apart : ∀ thread position place idx, Settled events map position idx →
    ¬Granted events thread place idx
  covered : ∀ idx < map.layout.slabPool.entries.length,
    idx ∈ map.layout.slabPool.freeList ∨ (∃ position, Settled events map position idx) ∨
      ∃ thread position, Granted events thread position idx
  bounded : map.layout.slabPool.entries.length ≤ 4 * map.layout.numBuckets

section States

theorem granted_moving {work : SlabWork} {position : Position} {idx : Nat}
    (allocated : work.allocated = some (position, idx)) :
    work.moving = some (position, some idx) := by
  simp [SlabWork.moving, allocated]

theorem moving_granted {work : SlabWork} {position : Position} {idx : Nat}
    (moving : work.moving = some (position, some idx)) :
    work.allocated = some (position, idx) := by
  cases allocated : work.allocated with
  | none => simp [SlabWork.moving, allocated] at moving
  | some entry => simpa [SlabWork.moving, allocated, Prod.ext_iff] using moving

theorem freed_moving {thread : Nat} {work : SlabWork} {position : Position} {idx : Nat}
    (worked : Worked thread work map) (freed : work.freed = some (position, idx)) :
    ∃ held, work.moving = some (position, held) := by
  obtain ⟨place, here⟩ := worked.together
  cases allocated : work.allocated with
  | none => exact ⟨none, by simp [SlabWork.moving, allocated, freed]⟩
  | some entry =>
      obtain ⟨other, new⟩ := entry
      refine ⟨some new, ?_⟩
      rw [granted_moving allocated, here.1 position idx freed, here.2 other new allocated]

theorem transit_moving (worked : ∀ thread, Worked thread (slabWork thread events) map)
    (invariant : map.Invariant config False) {position : Position} {held : Option Nat} :
    map.transit position.1 = some (position.2, held) ↔
      ∃ thread, (slabWork thread events).moving = some (position, held) := by
  constructor
  · intro moves
    cases holder : map.locks position.1 with
    | none =>
        rw [invariant.moving position.1 holder] at moves
        cases moves
    | some thread =>
        rw [(worked thread).transit position.1 holder] at moves
        obtain ⟨⟨place, kept⟩, moving, same⟩ := Option.map_eq_some_iff.mp moves
        obtain ⟨sameSlot, rfl⟩ := Prod.mk.inj same
        have sameBucket := invariant.single position.1 place.1 thread holder
          ((worked thread).locked place kept moving)
        have samePlace : place = position := Prod.ext sameBucket.symm sameSlot
        rw [samePlace] at moving
        exact ⟨thread, moving⟩
  · rintro ⟨thread, moving⟩
    rw [(worked thread).transit position.1 ((worked thread).locked position held moving), moving]
    rfl

theorem slot_index_iff {bucket : Bucket} {slot : Fin 4} {idx : Nat} :
    bucket.slotIndex slot = some idx ↔
      bucket.metaWord.getState slot = .full ∧ (bucket.slots slot).slabIndex = some idx := by
  simp [Bucket.slotIndex]

theorem settled_still {thread : Nat} {position : Position} {idx : Nat} {held : Option Nat}
    (settled : Settled events map position idx)
    (worked : Worked thread (slabWork thread events) map) :
    (slabWork thread events).moving ≠ some (position, held) := by
  intro moving
  have bytes := slot_index_iff.mpr ⟨settled.full, settled.slab⟩
  exact settled.kept thread (worked.locked position held moving)
    (worked.bytes position held idx moving bytes)

/-- The account of a slot: what its bytes say when it is settled, else what is granted. -/
theorem own_iff (worked : ∀ thread, Worked thread (slabWork thread events) map)
    (invariant : map.Invariant config False) {position : Position} {idx : Nat} :
    map.layout.own map.transit position = some idx ↔
      Settled events map position idx ∨ ∃ thread, Granted events thread position idx := by
  by_cases moves : ∃ held, map.transit position.1 = some (position.2, held)
  · obtain ⟨held, moves⟩ := moves
    obtain ⟨thread, moving⟩ := (transit_moving worked invariant).mp moves
    rw [show map.layout.own map.transit position = held from Layout.own_moving moves]
    constructor
    · rintro rfl
      exact Or.inr ⟨thread, moving_granted moving⟩
    · rintro (settled | ⟨other, granted⟩)
      · exact absurd moving (settled_still settled (worked thread))
      · have again := (transit_moving worked invariant).mpr ⟨other, granted_moving granted⟩
        rw [moves] at again
        exact (Prod.mk.inj (Option.some.inj again)).2
  · have still : ∀ held, map.transit position.1 ≠ some (position.2, held) :=
      fun held found => moves ⟨held, found⟩
    rw [Layout.own_settled still, slot_index_iff]
    constructor
    · rintro ⟨full, slab⟩
      refine Or.inl ⟨full, slab, ?_⟩
      intro thread _ freed
      obtain ⟨held, moving⟩ := freed_moving (worked thread) freed
      exact still held ((transit_moving worked invariant).mpr ⟨thread, moving⟩)
    · rintro (settled | ⟨thread, granted⟩)
      · exact ⟨settled.full, settled.slab⟩
      · exact absurd ((transit_moving worked invariant).mpr ⟨thread, granted_moving granted⟩)
          (still (some idx))

theorem slab_owned (worked : ∀ thread, Worked thread (slabWork thread events) map)
    (invariant : map.Invariant config False) : SlabOwned events map := by
  have accounts := invariant.layout.accounts
  have settledOwn : ∀ position idx, Settled events map position idx →
      map.layout.own map.transit position = some idx :=
    fun position idx settled => (own_iff worked invariant).mpr (Or.inl settled)
  have grantedOwn : ∀ thread position idx, Granted events thread position idx →
      map.layout.own map.transit position = some idx :=
    fun thread position idx granted => (own_iff worked invariant).mpr (Or.inr ⟨thread, granted⟩)
  have inside : ∀ thread position idx, Granted events thread position idx →
      map.locks position.1 = some thread := fun thread position idx granted =>
    (worked thread).locked position (some idx) (granted_moving granted)
  refine ⟨accounts.freeDistinct, accounts.freeBound, inside, ?_, ?_, ?_, ?_, ?_, ?_, ?_⟩
  · intro position idx settled
    obtain ⟨member, bound, notFree⟩ := accounts.ownBound position idx (settledOwn position idx settled)
    exact ⟨mem_positions.mp member, bound, notFree⟩
  · intro thread position idx granted
    exact (accounts.ownBound position idx (grantedOwn thread position idx granted)).2
  · intro position other idx settled again
    exact accounts.exclusive position other idx (settledOwn _ _ settled) (settledOwn _ _ again)
  · intro thread other position place idx granted again
    obtain rfl := accounts.exclusive position place idx (grantedOwn _ _ _ granted)
      (grantedOwn _ _ _ again)
    have holder := inside thread position idx granted
    rw [inside other position idx again] at holder
    exact ⟨(Option.some.inj holder).symm, rfl⟩
  · intro thread position place idx settled granted
    obtain rfl := accounts.exclusive position place idx (settledOwn _ _ settled)
      (grantedOwn _ _ _ granted)
    exact settled_still settled (worked thread) (granted_moving granted)
  · intro idx below
    rcases accounts.covered idx below with free | ⟨position, owned⟩
    · exact Or.inl free
    · rcases (own_iff worked invariant).mp owned with settled | ⟨thread, granted⟩
      · exact Or.inr (Or.inl ⟨position, settled⟩)
      · exact Or.inr (Or.inr ⟨thread, position, granted⟩)
  · rw [← positions_card]
    exact accounts.sizeBound

end States

/-! ### Readers -/

def Rested (work : SlabWork) : CallPhase → Prop
  | .running call => ¬call.Writes → work = .idle
  | _ => work = .idle

structure Reported (moves : SyncMoves) (events : SyncEvents config)
    (reports : Nat → SlabWork × CallPhase) (map : SyncMap) : Prop where
  attributed : SyncMap.Attributed moves map
  current : ∀ thread, SyncMap.Current moves thread map (reports thread).2
  accumulated : ∀ thread, (reports thread).1 = slabWork thread events
  rested : ∀ thread, Rested (reports thread).1 (reports thread).2

section Reports

variable {moves : SyncMoves} {reports : Nat → SlabWork × CallPhase} {thread : Nat}

theorem reported_called (reported : Reported moves events reports map)
    (done : (reports thread).1 = .idle) {call : SyncCall} (scheduled : .call thread call ∈ moves) :
    Reported moves (events ++ [.called thread call])
      (Function.update reports thread (.idle, .waiting call)) map where
  attributed := reported.attributed
  current := by
    intro other
    by_cases same : other = thread
    · subst same
      rw [Function.update_self]
      exact scheduled
    · rw [Function.update_of_ne same]
      exact reported.current other
  accumulated := by
    intro other
    rw [slab_work_called]
    by_cases same : other = thread
    · subst same
      rw [← reported.accumulated other, done, Function.update_self]
    · rw [Function.update_of_ne same]
      exact reported.accumulated other
  rested := by
    intro other
    by_cases same : other = thread
    · subst same
      simp [Rested]
    · simpa [same] using reported.rested other

theorem reported_act {action : SyncAction} {response : action.Response} {after : SyncMap}
    (reported : Reported moves events reports map) (allowed : (reports thread).2.Allows action)
    (performed : map.perform config thread action = some (response, after)) :
    Reported moves (events ++ [.acted thread action response])
      (Function.update reports thread
        ((reports thread).1.next action response, (reports thread).2.next)) after := by
  have before : ∀ other, SyncMap.Current moves other map ((Prod.snd ∘ reports) other) :=
    reported.current
  obtain ⟨attributed, current⟩ :=
    SyncMap.attributed_act reported.attributed before allowed performed
  refine ⟨attributed, ?_, ?_, ?_⟩
  · intro other
    have now := current other
    by_cases same : other = thread
    · subst same
      simpa using now
    · simpa [same] using now
  · intro other
    rw [slab_work_acted]
    by_cases same : other = thread
    · subst same
      rw [Function.update_self, if_pos rfl, ← reported.accumulated other]
    · rw [Function.update_of_ne same, if_neg (Ne.symm same)]
      exact reported.accumulated other
  · intro other
    by_cases same : other = thread
    · subst same
      rw [Function.update_self]
      have before := reported.rested other
      cases phase : (reports other).2 with
      | idle =>
          rw [phase] at allowed
          exact allowed.elim
      | waiting call =>
          rw [phase] at allowed before
          obtain rfl : action = .begin call := allowed
          exact fun _ => before
      | running call =>
          rw [phase] at allowed before
          intro reads
          change SlabWork.next (reports other).1 action response = .idle
          rw [before reads]
          exact (SyncProgram.idle_permitted reads allowed).2 response
    · rw [Function.update_of_ne same]
      exact reported.rested other

end Reports

def reportChronicle (config : SyncConfig) (moves : SyncMoves) :
    Chronicle ((slabDiscipline config).both (callDiscipline config)) (SyncCall.program config) where
  start := fun call => (.idle, .waiting call)
  Final := fun place => place.1 = .idle ∧ True
  Allowed := fun thread call => .call thread call ∈ moves
  Known := fun _ => True
  Invariant := Reported moves
  follows := fun _ call _ =>
    Discipline.follows_both (SyncProgram.clean_program call) call.program_follows
  begins := fun _ _ _ _ _ scheduled _ reported final => reported_called reported final.1 scheduled
  acts := fun _ _ _ _ _ _ _ _ reported allowed performed _ =>
    reported_act reported allowed.2 performed

theorem reports_run (config : SyncConfig) (numBuckets : Nat) (moves : SyncMoves) :
    ∃ reports, (reportChronicle config moves).Kept (syncTrace config numBuckets moves) reports
      (syncRun config numBuckets moves) := by
  have start : (reportChronicle config moves).Kept [] (fun _ => (.idle, .idle))
      (syncSystem config numBuckets) := by
    refine ⟨fun _ => ⟨rfl, trivial⟩, ⟨?_, ?_, ?_, ?_⟩, fun _ => trivial, fun _ => rfl, fun _ => rfl⟩ <;>
      simp [syncSystem, SyncMap.new]
  exact Chronicle.kept_run start moves (fun _ _ _ => trivial) (fun _ _ member => member)

/-- The thread is inside `get` or `peek` and holds the lock of the bucket. -/
def Reading (thread bucketIdx : Nat) (map : SyncMap) : Prop :=
  map.locks bucketIdx = some thread ∧
    ∃ request key, (request = SyncCall.get key ∨ request = SyncCall.peek key) ∧
      ⟨thread, map.calls thread, request⟩ ∈ map.started

def Steady (bucketIdx : Nat) (before after : SyncMap) : Prop :=
  after.layout.buckets bucketIdx = before.layout.buckets bucketIdx ∧
    after.transit bucketIdx = before.transit bucketIdx ∧
    ∀ slot idx, before.layout.own before.transit (bucketIdx, slot) = some idx →
      after.layout.slabPool.get idx = before.layout.slabPool.get idx

theorem Steady.trans {bucketIdx : Nat} {first second third : SyncMap}
    (early : Steady bucketIdx first second) (late : Steady bucketIdx second third) :
    Steady bucketIdx first third := by
  refine ⟨late.1.trans early.1, late.2.1.trans early.2.1, ?_⟩
  intro slot idx owned
  rw [← early.2.2 slot idx owned]
  apply late.2.2 slot idx
  rw [← owned]
  simp only [Layout.own, early.1, early.2.1]

theorem reader_steady {thread bucketIdx : Nat} {call : SyncCall} {action : SyncAction}
    {response : action.Response} {after : SyncMap} {key : Bytes}
    (reader : call = .get key ∨ call = .peek key) (permits : call.Permits action)
    (performed : map.perform config thread action = some (response, after)) :
    Steady bucketIdx map after := by
  have silent : ¬call.Writes ∧ ¬SyncEvent.Of call .resize ∧
      (∀ name text victim, ¬SyncEvent.Of call (.insert name text victim)) ∧
      ∀ name, ¬SyncEvent.Of call (.remove name true) := by
    rcases reader with rfl | rfl <;> simp [SyncCall.Writes, SyncEvent.Of]
  obtain ⟨reads, sized, kept, stored⟩ := silent
  cases action with
  | onAccess other slot => exact absurd permits reads
  | slabFree other slot idx => exact absurd permits reads
  | slabAlloc other slot name text => exact absurd permits reads
  | rehash newActual => exact absurd permits sized
  | updateSlot other slot data name text => exact absurd permits (kept name text none)
  | placeSlot other slot h2 data name text => exact absurd (permits none) (kept name text none)
  | clearSlot other slot name => exact absurd permits (stored name)
  | _ =>
      simp only [SyncMap.perform] at performed
      repeat' split at performed
      all_goals first
        | (obtain rfl := (Prod.mk.inj (Option.some.inj performed)).2; exact ⟨rfl, rfl, fun _ _ _ => rfl⟩)
        | simp at performed

theorem reading_phase {moves : SyncMoves} {thread bucketIdx : Nat} {call : SyncCall}
    (attributed : SyncMap.Attributed moves map)
    (current : SyncMap.Current moves thread map (.running call))
    (reading : Reading thread bucketIdx map) : ∃ key, call = .get key ∨ call = .peek key := by
  obtain ⟨_, request, key, reader, started⟩ := reading
  have same := List.inj_on_of_nodup_map attributed.once started current.2 rfl
  obtain rfl := (StartedCall.mk.inj same).2.2
  exact ⟨key, reader⟩

theorem reading_step (numBuckets : Nat) (moves : SyncMoves) {thread bucketIdx : Nat}
    (reading : Reading thread bucketIdx (syncRun config numBuckets moves).shared) :
    Steady bucketIdx (syncRun config numBuckets moves).shared
      ((syncRun config numBuckets moves).step thread).shared := by
  obtain ⟨reports, kept⟩ := reports_run config numBuckets moves
  have reported : Reported moves _ reports _ := kept.invariant
  have still : Steady bucketIdx (syncRun config numBuckets moves).shared
      (syncRun config numBuckets moves).shared := ⟨rfl, rfl, fun _ _ _ => rfl⟩
  have follows := kept.follows thread
  have current := reported.current thread
  unfold System.step
  split
  case h_2 => exact still
  case h_1 action next program =>
    rw [program] at follows
    have allowed : (reports thread).2.Allows action := follows.1.2
    split
    case h_1 => exact still
    case h_2 response after performed =>
      change SyncMap.perform config thread action _ = _ at performed
      cases phase : (reports thread).2 with
      | idle =>
          rw [phase] at allowed
          exact allowed.elim
      | waiting call =>
          rw [phase] at allowed
          obtain rfl : action = .begin call := allowed
          obtain rfl := (Prod.mk.inj (Option.some.inj performed)).2
          exact still
      | running call =>
          rw [phase] at allowed current
          obtain ⟨key, reader⟩ := reading_phase reported.attributed current reading
          exact reader_steady reader allowed performed

theorem reading_still {numBuckets : Nat} (small : numBuckets ≤ 2 ^ 56) (moves : SyncMoves)
    (sized : moves.Sized) {thread bucketIdx : Nat}
    (reading : Reading thread bucketIdx (syncRun config numBuckets moves).shared) :
    SyncMap.transit (syncRun config numBuckets moves).shared bucketIdx = none := by
  obtain ⟨reports, kept⟩ := reports_run config numBuckets moves
  have reported : Reported moves _ reports _ := kept.invariant
  have current := reported.current thread
  have rested := reported.rested thread
  have idle : (reports thread).1 = .idle := by
    cases phase : (reports thread).2 with
    | running call =>
        rw [phase] at rested current
        apply rested
        obtain ⟨key, rfl | rfl⟩ := reading_phase reported.attributed current reading <;> exact id
    | _ =>
        rw [phase] at rested
        exact rested
  have worked := slab_work_run config small moves sized thread
  rw [← reported.accumulated thread, idle] at worked
  exact worked.transit bucketIdx reading.1

theorem rely_steady {thread bucketIdx : Nat} {before after : SyncMap}
    (rely : SyncMap.Rely thread before after) (holds : before.locks bucketIdx = some thread) :
    Steady bucketIdx before after := by
  obtain ⟨buckets, _, transit, _⟩ := rely.bucket bucketIdx holds
  exact ⟨buckets, transit, fun slot idx owned => rely.entries bucketIdx slot idx holds owned⟩

theorem reading_move {numBuckets : Nat} (small : numBuckets ≤ 2 ^ 56) (moves : SyncMoves)
    (sized : moves.Sized) {thread bucketIdx : Nat}
    (reading : Reading thread bucketIdx (syncRun config numBuckets moves).shared)
    (move : Move SyncCall) :
    Steady bucketIdx (syncRun config numBuckets moves).shared
      (syncRun config numBuckets (moves ++ [move])).shared := by
  have last : syncRun config numBuckets (moves ++ [move]) =
      (syncRun config numBuckets moves).move (SyncCall.program config) move :=
    System.run_append _ _ moves [move]
  rw [last]
  by_cases own : move = .step thread
  · subst own
    exact reading_step numBuckets moves reading
  · exact rely_steady (Protocol.move_rely (SyncCall.program config)
      (sync_run_holds config False small moves sized False.elim) False.elim own) reading.1

/-- While a thread reads under its bucket lock, the bucket and its entries do not change. -/
theorem reading_run {numBuckets : Nat} (small : numBuckets ≤ 2 ^ 56) (past middle : SyncMoves)
    (sized : SyncMoves.Sized (past ++ middle)) {thread bucketIdx : Nat}
    (reading : ∀ front back, middle = front ++ back →
      Reading thread bucketIdx (syncRun config numBuckets (past ++ front)).shared) :
    Steady bucketIdx (syncRun config numBuckets past).shared
      (syncRun config numBuckets (past ++ middle)).shared := by
  induction middle using List.reverseRecOn with
  | nil =>
      rw [List.append_nil]
      exact ⟨rfl, rfl, fun _ _ _ => rfl⟩
  | append_singleton middle move induction =>
      have sizedBefore : SyncMoves.Sized (past ++ middle) := by
        intro other call member
        apply sized other call
        rw [← List.append_assoc]
        exact List.mem_append_left _ member
      have early := induction sizedBefore fun front back split =>
        reading front (back ++ [move]) (by rw [split, List.append_assoc])
      rw [← List.append_assoc]
      exact early.trans (reading_move small (past ++ middle) sizedBefore
        (reading middle [move] rfl) move)

def SameEntries (bucketIdx : Nat) (before after : SyncMap) : Prop :=
  after.layout.buckets bucketIdx = before.layout.buckets bucketIdx ∧
    ∀ slot idx, (before.layout.buckets bucketIdx).metaWord.getState slot = .full →
      ((before.layout.buckets bucketIdx).slots slot).slabIndex = some idx →
      ∃ entry, before.layout.slabPool.get idx = some entry ∧
        after.layout.slabPool.get idx = some entry

theorem sync_slab_ownership (config : SyncConfig) (numBuckets : Nat)
    (small : numBuckets ≤ SyncMap.maxBuckets) (moves : SyncMoves) (sized : moves.Sized) :
    SlabOwned (syncTrace config numBuckets moves) (syncRun config numBuckets moves).shared ∧
      ∀ past middle, moves = past ++ middle → ∀ thread bucketIdx,
        (∀ front back, middle = front ++ back →
          Reading thread bucketIdx (syncRun config numBuckets (past ++ front)).shared) →
        SameEntries bucketIdx (syncRun config numBuckets past).shared
          (syncRun config numBuckets moves).shared := by
  have invariant := (sync_run_holds config False small moves sized False.elim).invariant
  refine ⟨slab_owned (slab_work_run config small moves sized) invariant, ?_⟩
  rintro past middle rfl thread bucketIdx reading
  have sizedPast : SyncMoves.Sized past := fun other call member =>
    sized other call (List.mem_append_left _ member)
  have before := (sync_run_holds config False small past sizedPast False.elim).invariant
  have now := reading [] middle rfl
  rw [List.append_nil] at now
  have still := reading_still small past sizedPast now
  obtain ⟨buckets, _, entries⟩ := reading_run small past middle sized reading
  refine ⟨buckets, ?_⟩
  intro slot idx full slab
  have owned : Layout.own (SyncMap.layout (syncRun config numBuckets past).shared)
      (SyncMap.transit (syncRun config numBuckets past).shared) (bucketIdx, slot) = some idx := by
    rw [Layout.own_settled (by simp [still])]
    exact slot_index_iff.mpr ⟨full, slab⟩
  have bound := (before.layout.accounts.ownBound _ idx owned).2.1
  have found := List.getElem?_eq_getElem bound
  exact ⟨_, found, (entries slot idx owned).trans found⟩

/-- A pair goes into the slab; then its key is compared in a `get`. -/
def insertThenGet : SyncMoves :=
  .call 0 (.insert [7] [1, 2, 3, 4, 5, 6, 7, 8] 0) :: .call 1 (.get [7]) ::
    List.replicate 20 (.step 0) ++ List.replicate 5 (.step 1)

theorem sync_slab_ownership_one_get :
    SyncMoves.Sized (insertThenGet ++ [.step 1]) ∧
      SlabOwned (syncTrace ⟨false, false, fun _ => 0⟩ 1 (insertThenGet ++ [.step 1]))
        (syncRun ⟨false, false, fun _ => 0⟩ 1 (insertThenGet ++ [.step 1])).shared ∧
      SameEntries 0 (syncRun ⟨false, false, fun _ => 0⟩ 1 insertThenGet).shared
        (syncRun ⟨false, false, fun _ => 0⟩ 1 (insertThenGet ++ [.step 1])).shared := by
  have sized : SyncMoves.Sized (insertThenGet ++ [.step 1]) := by
    intro thread call member
    simp only [insertThenGet, List.cons_append, List.mem_cons, Move.call.injEq, List.mem_append,
      List.mem_replicate, reduceCtorEq, and_false, or_false, List.not_mem_nil] at member
    rcases member with ⟨_, rfl⟩ | ⟨_, rfl⟩
    · change 1 + 8 < 2 ^ 32
      decide
    · trivial
  have owned := sync_slab_ownership ⟨false, false, fun _ => 0⟩ 1 (by decide) _ sized
  refine ⟨sized, owned.1, owned.2 insertThenGet [.step 1] rfl 1 0 ?_⟩
  have reading : ∀ front ∈ [[], [.step 1]],
      Reading 1 0 (syncRun ⟨false, false, fun _ => 0⟩ 1 (insertThenGet ++ front)).shared := by
    intro front member
    have started : SyncMap.started
        (syncRun ⟨false, false, fun _ => 0⟩ 1 (insertThenGet ++ front)).shared =
          [⟨0, 1, .insert [7] [1, 2, 3, 4, 5, 6, 7, 8] 0⟩, ⟨1, 1, .get [7]⟩] := by
      simp only [List.mem_cons, List.not_mem_nil, or_false] at member
      rcases member with rfl | rfl <;> rfl
    have holds : SyncMap.locks
          (syncRun ⟨false, false, fun _ => 0⟩ 1 (insertThenGet ++ front)).shared 0 = some 1 ∧
        SyncMap.calls (syncRun ⟨false, false, fun _ => 0⟩ 1 (insertThenGet ++ front)).shared 1 = 1 := by
      simp only [List.mem_cons, List.not_mem_nil, or_false] at member
      rcases member with rfl | rfl <;> decide
    refine ⟨holds.1, .get [7], [7], Or.inl rfl, ?_⟩
    rw [started, holds.2]
    simp
  intro front back split
  apply reading
  rcases front with _ | ⟨first, _ | ⟨second, rest⟩⟩
  · simp
  · simp [(List.cons.inj split).1]
  · simp at split

end PulseMap
