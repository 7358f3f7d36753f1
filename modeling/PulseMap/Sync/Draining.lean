import PulseMap.Sync.Accesses
import PulseMap.Sync.Counters

/-!
What an insert's drain hands to its callback. A pop inside the locks of the map only
returns events that were pushed under the layout its thread reads: a resize finds no
buffer call half-done and leaves the buffer empty before it installs the next layout. The
thread applies what it has popped before it leaves the lock, so under that same layout.
-/

namespace PulseMap

/-! ### Deliveries -/

namespace RingState

variable {w : Nat}

/-- Only the last access of a pop delivers, and it delivers what the pop has loaded. -/
theorem act_delivered (state : RingState w) (action : RingAction w) :
    (state.act action).ring.delivered = state.ring.delivered ∨
      ∃ tail data, (state.threads action.thread).call = .release tail data ∧
        (state.act action).ring.accepted = state.ring.accepted ∧
        (state.act action).ring.delivered = state.ring.delivered ++
          [((state.threads action.thread).position, Access.decode data)] := by
  cases action with
  | push thread event => exact Or.inl (by rw [act, start_ring])
  | pop thread => exact Or.inl (by rw [act, start_ring])
  | step thread =>
      change (state.advance thread).ring.delivered = _ ∨ ∃ tail data,
        (state.threads thread).call = .release tail data ∧
          (state.advance thread).ring.accepted = _ ∧ (state.advance thread).ring.delivered = _
      cases call : (state.threads thread).call with
      | release tail data =>
          refine Or.inr ⟨tail, data, rfl, ?_⟩
          simp [advance, call, AccessBuffer.step, setThread, RingAction.thread]
      | reserve event head =>
          left
          simp only [advance, call]
          split <;> simp_all [setThread, countReservation]
      | claim tail =>
          left
          simp only [advance, call]
          split <;> simp_all [setThread]
      | _ =>
          left
          simp only [advance, call]
          rfl

theorem step_pops (state : RingState w) (thread : Nat) {event : Access w}
    (running : (state.threads thread).call.returned = false)
    (pops : ((state.act (.step thread)).threads thread).call = .popped (some event)) :
    (state.act (.step thread)).ring.delivered =
        state.ring.delivered ++ [((state.threads thread).position, event)] ∧
      (state.act (.step thread)).ring.accepted = state.ring.accepted ∧
      ((state.act (.step thread)).threads thread).position = (state.threads thread).position := by
  have stepped := pops
  rw [act, advance_call] at stepped
  cases call : (state.threads thread).call with
  | release tail data =>
      rw [call] at stepped
      obtain rfl := Option.some.inj (BufferCall.popped.inj stepped)
      simp [act, advance, call, AccessBuffer.step, setThread]
  | popped answer =>
      rw [call] at running
      cases running
  | _ =>
      rw [call] at stepped
      simp only [AccessBuffer.step] at stepped
      try split_ifs at stepped
      all_goals cases stepped

theorem start_pops (state : RingState w) (thread : Nat) {call : BufferCall w} (event : Access w)
    (fresh : call ≠ .popped (some event)) :
    ((state.start thread call).threads thread).call ≠ .popped (some event) := by
  unfold start
  split_ifs with returned
  · simpa [setThread] using fresh
  · intro popped
    rw [popped] at returned
    exact returned rfl

theorem act_position (state : RingState w) (action : RingAction w) {other : Nat}
    (different : other ≠ action.thread) :
    ((state.act action).threads other).position = (state.threads other).position := by
  cases action with
  | push thread event => exact congrArg RingThread.position (start_other state _ different)
  | pop thread => exact congrArg RingThread.position (start_other state _ different)
  | step thread => exact (advance_other state different).2

end RingState

def SyncAction.AtBuffer : SyncAction → Prop
  | startPush _ => True
  | startPop => True
  | bufferStep => True
  | _ => False

namespace SyncMap

variable {config : SyncConfig} {thread : Nat} {action : SyncAction} {map after : SyncMap}
  {response : action.Response}

theorem perform_buffer (performed : map.perform config thread action = some (response, after)) :
    (after.accessBuffer = map.accessBuffer ∧ after.pushedIn = map.pushedIn ∧
      after.deliveredIn = map.deliveredIn) ∨
    ∃ access : RingAction 64, access.thread = thread ∧ after = map.bufferAct access ∧
      action.AtBuffer := by
  cases action <;> simp only [perform] at performed
  case startPush event =>
    cases performed
    exact Or.inr ⟨.push thread event, rfl, rfl, trivial⟩
  case startPop =>
    cases performed
    exact Or.inr ⟨.pop thread, rfl, rfl, trivial⟩
  case bufferStep =>
    cases performed
    exact Or.inr ⟨.step thread, rfl, rfl, trivial⟩
  all_goals
    left
    (repeat' split at performed) <;> cases performed <;> exact ⟨rfl, rfl, rfl⟩

/-- Only a rehash installs another layout, and it leaves the buffer alone. -/
theorem perform_generation (performed : map.perform config thread action = some (response, after)) :
    after.generation = map.generation ∨
      (∃ newActual, action = .rehash newActual) ∧ after.generation = map.generation + 1 ∧
        after.accessBuffer = map.accessBuffer ∧ after.pushedIn = map.pushedIn := by
  cases action <;> simp only [perform] at performed
  case rehash newActual =>
    (repeat' split at performed) <;> cases performed
    · exact Or.inl rfl
    · exact Or.inl rfl
    · exact Or.inr ⟨⟨newActual, rfl⟩, rfl, rfl, rfl⟩
  all_goals
    left
    (repeat' split at performed) <;> cases performed <;> rfl

end SyncMap

/-! ### Every schedule -/

/-- What a step hands to the callback of a drain, and what a new layout finds. -/
structure DrainsInLayout (config : SyncConfig) (numBuckets : Nat) (moves : SyncMoves) : Prop where
  /-- No thread has used an index that is out of range: a panic is that of a poisoned lock. -/
  intact : ∀ thread, (syncRun config numBuckets moves).programs thread = .panic →
    SyncMap.poisoned (syncRun config numBuckets moves).shared = true
  /-- A delivered event was pushed under the layout that the popping thread holds. -/
  delivery : ∀ past thread future position event, moves = past ++ .step thread :: future →
    let before : SyncMap := (syncRun config numBuckets past).shared
    let after : SyncMap := (syncRun config numBuckets (past ++ [.step thread])).shared
    after.accessBuffer.ring.delivered = before.accessBuffer.ring.delivered ++ [(position, event)] →
      (thread ∈ before.readers ∨ before.writer = some thread) ∧
      before.accessBuffer.ring.accepted[position]? = some event ∧
      before.pushedIn[position]? = some before.generation ∧
      event.1.toNat < before.layout.numBuckets ∧ event.2.toNat < 4
  /-- An access that a drain applies is the one that the thread has just popped, and was pushed
  under the layout that it is applied to. -/
  applied : ∀ past thread future bucketIdx slot (response : Unit),
    moves = past ++ .step thread :: future →
    ((syncRun config numBuckets past).event (.step thread : Move SyncCall) :
      Option (Event (syncMachine config) SyncCall)) =
        some (.acted thread (SyncAction.onAccess bucketIdx slot) response) →
    let map : SyncMap := (syncRun config numBuckets past).shared
    let position := (map.accessBuffer.threads thread).position
    ∃ event : Access 64, (map.accessBuffer.threads thread).call = .popped (some event) ∧
      (position, event) ∈ map.accessBuffer.ring.delivered ∧
      map.accessBuffer.ring.accepted[position]? = some event ∧
      map.pushedIn[position]? = some map.generation ∧
      bucketIdx = event.1.toNat ∧ bucketIdx < map.layout.numBuckets ∧ slot.val = event.2.toNat
  /-- A new layout is installed outside all other sections, over an empty buffer. -/
  cleared : ∀ past thread future, moves = past ++ .step thread :: future →
    let before : SyncMap := (syncRun config numBuckets past).shared
    let after : SyncMap := (syncRun config numBuckets (past ++ [.step thread])).shared
    after.generation ≠ before.generation →
      before.writer = some thread ∧ before.readers = ∅ ∧
      ∀ position < before.accessBuffer.ring.accepted.length,
        position ∈ before.accessBuffer.ring.released

theorem decode_slot (data : BitVec 64) : (Access.decode data).2.toNat < 4 := by
  rw [Access.decode, BitVec.toNat_setWidth, BitVec.toNat_and, BitVec.toNat_ofNat,
    show 3 % 2 ^ 64 = 2 ^ 2 - 1 from rfl, Nat.and_two_pow_sub_one_eq_mod]
  omega

theorem sync_run_step (config : SyncConfig) (numBuckets : Nat) (past : SyncMoves) (thread : Nat) :
    let before : SyncMap := (syncRun config numBuckets past).shared
    let after : SyncMap := (syncRun config numBuckets (past ++ [.step thread])).shared
    after = before ∨ ∃ (action : SyncAction) (next : action.Response → SyncProgram config Unit)
      (response : action.Response), (syncRun config numBuckets past).programs thread = .act action next ∧
        before.perform config thread action = some (response, after) := by
  have last : syncRun config numBuckets (past ++ [.step thread]) =
      (syncRun config numBuckets past).step thread := System.run_append ..
  rw [last]
  exact System.step_shared ..

section Runs

variable {config : SyncConfig} {numBuckets : Nat}

theorem delivery_current {before after : SyncMap} {thread position : Nat} {event : Access 64}
    {action : SyncAction} {response : action.Response}
    (invariant : before.Invariant config True) (later : after.Invariant config True)
    (performed : before.perform config thread action = some (response, after))
    (delivered : after.accessBuffer.ring.delivered =
      before.accessBuffer.ring.delivered ++ [(position, event)]) :
    (thread ∈ before.readers ∨ before.writer = some thread) ∧
      before.accessBuffer.ring.accepted[position]? = some event ∧
      before.pushedIn[position]? = some before.generation ∧
      event.1.toNat < before.layout.numBuckets ∧ event.2.toNat < 4 := by
  rcases SyncMap.perform_buffer performed with ⟨same, _, _⟩ | ⟨access, rfl, rfl, _⟩
  · rw [same] at delivered
    exact absurd (List.self_eq_append_right.mp delivered) (List.cons_ne_nil _ _)
  · have acted : (before.bufferAct access).accessBuffer = before.accessBuffer.act access := rfl
    rw [acted] at delivered
    rcases RingState.act_delivered before.accessBuffer access with same | ⟨tail, data, call, kept, now⟩
    · rw [same] at delivered
      exact absurd (List.self_eq_append_right.mp delivered) (List.cons_ne_nil _ _)
    · have ring : ((before.bufferAct access).accessBuffer.ring).Invariant 12 :=
        (later.buffered trivial).ring.ring
      rw [acted] at ring
      obtain ⟨rfl, rfl⟩ := Prod.mk.inj (List.singleton_inj.mp (List.append_cancel_left (now ▸ delivered)))
      set position := (before.accessBuffer.threads access.thread).position
      have accepted : before.accessBuffer.ring.accepted[position]? = some (Access.decode data) := by
        rw [← kept]
        apply ring.exact
        rw [now]
        simp
      have undelivered : position ∉ before.accessBuffer.ring.released := by
        have once := ring.once
        rw [Ring.released, now, List.map_append, List.nodup_append] at once
        intro member
        exact once.2.2 _ member _ (List.mem_singleton_self _) rfl
      have carried := invariant.inRange.calls access.thread
      rw [call] at carried
      exact ⟨invariant.active access.thread (by rw [call]; rfl), accepted,
        (invariant.buffered trivial).current position (List.getElem?_eq_some_iff.mp accepted).1 undelivered,
        carried, decode_slot data⟩

/-- A thread that rehashes holds the write lock, and nobody else holds any lock of the map. -/
theorem rehash_alone (small : numBuckets ≤ SyncMap.maxBuckets) {past : SyncMoves} (sized : past.Sized)
    {thread newActual : Nat} {next : Option (Option Nat) → SyncProgram config Unit}
    (program : (syncRun config numBuckets past).programs thread = .act (SyncAction.rehash newActual) next) :
    SyncMap.writer (syncRun config numBuckets past).shared = some thread ∧
      SyncMap.readers (syncRun config numBuckets past).shared = ∅ := by
  obtain ⟨places, conducts, located, _⟩ := ledger_run (balanceLedger config) small past sized
    (fun _ _ _ => trivial) (balance_new numBuckets)
  have own := conducts thread
  rw [program] at own
  have writes := located.writes own.1.1
  exact ⟨writes, (sync_run_holds config False small past sized False.elim).invariant.exclusive thread writes⟩

/-! ### From the pop to the access -/

/-- A pop of the thread has delivered this event from the layout that the thread has still
locked. -/
structure Drained (place : Standing) (thread : Nat) (event : Access 64) (map : SyncMap) : Prop where
  inside : place.held ≠ []
  delivered : ((map.accessBuffer.threads thread).position, event) ∈ map.accessBuffer.ring.delivered
  pushed : map.pushedIn[(map.accessBuffer.threads thread).position]? = some map.generation
  slot : event.2.toNat < 4

/-- What a thread may count on after its last buffer call. -/
def Handed (place : Standing × BufferAnswer) (thread : Nat) (map : SyncMap) : Prop :=
  ∀ call, place.2 = some call → (map.accessBuffer.threads thread).call = call ∧
    ∀ event, call = .popped (some event) → Drained place.1 thread event map

section Handed

variable {before after : SyncMap} {thread other : Nat} {action : SyncAction}
  {response : action.Response} {places : Nat → Standing} {place : Standing} {answer : BufferAnswer}

theorem drained_kept {event : Access 64} (drained : Drained place thread event before)
    {next : Standing} (inside : next.held ≠ [])
    (position : (after.accessBuffer.threads thread).position =
      (before.accessBuffer.threads thread).position)
    (delivered : before.accessBuffer.ring.delivered <+: after.accessBuffer.ring.delivered)
    (pushed : before.pushedIn <+: after.pushedIn) (generation : after.generation = before.generation) :
    Drained next thread event after := by
  refine ⟨inside, ?_, ?_, drained.slot⟩
  · rw [position]
    exact delivered.subset drained.delivered
  · obtain ⟨more, grown⟩ := pushed
    have found := drained.pushed
    rw [position, generation, ← grown, List.getElem?_append_left (List.getElem?_eq_some_iff.mp found).1]
    exact found

theorem perform_other (performed : before.perform config thread action = some (response, after))
    (different : other ≠ thread) :
    (after.accessBuffer.threads other).call = (before.accessBuffer.threads other).call ∧
      (after.accessBuffer.threads other).position = (before.accessBuffer.threads other).position ∧
      before.accessBuffer.ring.delivered <+: after.accessBuffer.ring.delivered ∧
      before.pushedIn <+: after.pushedIn := by
  rcases SyncMap.perform_buffer performed with ⟨same, pushed, _⟩ | ⟨access, rfl, rfl, _⟩
  · rw [same, pushed]
    exact ⟨rfl, rfl, List.prefix_refl _, List.prefix_refl _⟩
  · exact ⟨RingState.act_other _ access different, RingState.act_position _ access different,
      (RingState.act_grows _ access).2, List.prefix_append _ _⟩

theorem handed_other (located : Located places before)
    (exclusive : ∀ writer, before.writer = some writer → before.readers = ∅)
    (allows : (places thread).Allows config action)
    (performed : before.perform config thread action = some (response, after))
    (different : other ≠ thread) (handed : Handed (places other, answer) other before) :
    Handed (places other, answer) other after := by
  intro call answered
  obtain ⟨current, drained⟩ := handed call answered
  obtain ⟨sameCall, position, delivered, pushed⟩ := perform_other performed different
  refine ⟨sameCall.trans current, fun event popped => ?_⟩
  have old := drained event popped
  apply drained_kept old old.inside position delivered pushed
  rcases SyncMap.perform_generation performed with same | ⟨⟨newActual, rfl⟩, _⟩
  · exact same
  · -- Nobody else has locked anything of a map that is rebuilt.
    have writes := located.writes allows.1
    have outside : (places other).held = [] := by
      cases located.shaped other with
      | outside final => exact final.1
      | reading held =>
          have reads := (located.reading other).mp (by simp [held])
          rw [exclusive thread writes] at reads
          cases reads
      | writing held =>
          have also := (located.writing other).mp (by simp [held])
          rw [writes] at also
          exact absurd (Option.some.inj also).symm different
      | inBucket bucketIdx reads =>
          have member : .shared ∈ (places other).held := by
            rcases reads with held | held
            · rw [show (places other).held = [.bucket bucketIdx, .shared] from held]
              simp
            · simp [held]
          have readers := (located.reading other).mp member
          rw [exclusive thread writes] at readers
          cases readers
    exact absurd outside old.inside

theorem held_next (allows : place.Allows config action) (inside : place.held ≠ [])
    {call : BufferCall 64} (kept : answer.next action response = some call) :
    (place.next action response).held ≠ [] := by
  cases action with
  | readUnlock => cases kept
  | writeUnlock => cases kept
  | poison => cases kept
  | rehash newActual => cases kept
  | lockBucket bucketIdx =>
      cases response
      · exact inside
      · exact List.cons_ne_nil _ _
  | unlockBucket bucketIdx =>
      rw [Standing.next, show place.held = [.bucket bucketIdx, .shared] from allows.1]
      exact List.cons_ne_nil _ _
  | slabUnlock =>
      obtain ⟨bucketIdx, held⟩ := allows
      rw [Standing.next, held]
      exact List.cons_ne_nil _ _
  | readLock => exact List.cons_ne_nil _ _
  | writeLock => exact List.cons_ne_nil _ _
  | slabLock => exact List.cons_ne_nil _ _
  | _ => exact inside

theorem handed_still (allows : place.Allows config action)
    (buffer : after.accessBuffer = before.accessBuffer) (pushed : after.pushedIn = before.pushedIn)
    (generation : after.generation = before.generation)
    (still : answer.next action response = answer) (handed : Handed (place, answer) thread before) :
    Handed (place.next action response, answer.next action response) thread after := by
  intro call answered
  rw [still] at answered
  obtain ⟨current, drained⟩ := handed call answered
  rw [buffer]
  refine ⟨current, fun event popped => ?_⟩
  have old := drained event popped
  exact drained_kept old (held_next allows old.inside (still.trans answered)) (by rw [buffer])
    (by rw [buffer]) (by rw [pushed]) generation

/-- The step that ends a pop hands the thread an event of the layout that it has locked. -/
theorem handed_step {response : BufferCall 64} (located : Located places before)
    (invariant : before.Invariant config True) (later : after.Invariant config True)
    (suits : SyncAction.Suits answer .bufferStep)
    (performed : before.perform config thread .bufferStep = some (response, after))
    (handed : Handed (places thread, answer) thread before) :
    Handed (places thread, some response) thread after := by
  have stepped := performed
  simp only [SyncMap.perform, Option.some.injEq, Prod.mk.injEq] at stepped
  obtain ⟨rfl, rfl⟩ := stepped
  intro call answered
  cases answered
  refine ⟨rfl, fun event popped => ?_⟩
  obtain ⟨call, answered, running⟩ := suits
  rw [← (handed call answered).1] at running
  obtain ⟨delivered, accepted, position⟩ := RingState.step_pops before.accessBuffer thread running popped
  obtain ⟨inside, _, pushed, _, slot⟩ := delivery_current invariant later performed delivered
  refine ⟨?_, ?_, ?_, slot⟩
  · intro outside
    rcases inside with reads | writes
    · have member := (located.reading thread).mpr reads
      rw [outside] at member
      cases member
    · have member := (located.writing thread).mpr writes
      rw [outside] at member
      cases member
  · change ((((before.accessBuffer.act (.step thread)).threads thread).position, event) ∈
      (before.accessBuffer.act (.step thread)).ring.delivered)
    rw [position, delivered]
    simp
  · obtain ⟨more, grown⟩ : before.pushedIn <+: (before.bufferAct (.step thread)).pushedIn :=
      List.prefix_append _ _
    change (before.bufferAct (.step thread)).pushedIn[((before.accessBuffer.act
      (.step thread)).threads thread).position]? = some before.generation
    rw [position, ← grown, List.getElem?_append_left (List.getElem?_eq_some_iff.mp pushed).1]
    exact pushed

theorem handed_own (located : Located places before) (invariant : before.Invariant config True)
    (later : after.Invariant config True) (allows : (places thread).Allows config action)
    (suits : SyncAction.Suits answer action)
    (performed : before.perform config thread action = some (response, after))
    (handed : Handed (places thread, answer) thread before) :
    Handed ((places thread).next action response, answer.next action response) thread after := by
  have generation := SyncMap.perform_generation performed
  cases action with
  | readUnlock => exact fun _ answered => by cases answered
  | writeUnlock => exact fun _ answered => by cases answered
  | poison => exact fun _ answered => by cases answered
  | rehash newActual => exact fun _ answered => by cases answered
  | bufferStep => exact handed_step located invariant later suits performed handed
  | startPush event =>
      simp only [SyncMap.perform, Option.some.injEq, Prod.mk.injEq] at performed
      obtain ⟨rfl, rfl⟩ := performed
      intro call answered
      cases answered
      refine ⟨rfl, fun popped same => absurd same (RingState.start_pops _ _ popped ?_)⟩
      unfold BufferCall.push
      split_ifs <;> simp
  | startPop =>
      simp only [SyncMap.perform, Option.some.injEq, Prod.mk.injEq] at performed
      obtain ⟨rfl, rfl⟩ := performed
      intro call answered
      cases answered
      exact ⟨rfl, fun popped same => absurd same (RingState.start_pops _ _ popped (by simp [BufferCall.pop]))⟩
  | _ =>
      rcases generation with same | ⟨⟨newActual, rehashes⟩, _⟩
      · rcases SyncMap.perform_buffer performed with ⟨buffer, pushed, _⟩ | ⟨_, _, _, accesses⟩
        · exact handed_still allows buffer pushed same rfl handed
        · exact absurd accesses id
      · cases rehashes

end Handed

def Passing (posts : Nat → Standing × BufferAnswer) (map : SyncMap) : Prop :=
  Located (Prod.fst ∘ posts) map ∧ ∀ thread, Handed (posts thread) thread map

section Passing

variable {before after : SyncMap} {thread : Nat} {posts : Nat → Standing × BufferAnswer}

theorem passing_called (passing : Passing posts before) (idle : (posts thread).1.Idle)
    (call : SyncCall) : Passing (Function.update posts thread (.start call, none)) before := by
  refine ⟨?_, fun other => ?_⟩
  · rw [Function.comp_update]
    exact located_start passing.1 idle call
  · by_cases same : other = thread
    · subst same
      rw [Function.update_self]
      exact fun _ answered => by cases answered
    · rw [Function.update_of_ne same]
      exact passing.2 other

theorem passing_act {action : SyncAction} {response : action.Response} (passing : Passing posts before)
    (invariant : before.Invariant config True) (later : after.Invariant config True)
    (allows : (posts thread).1.Allows config action) (suits : action.Suits (posts thread).2)
    (performed : before.perform config thread action = some (response, after)) :
    Passing (Function.update posts thread
      ((posts thread).1.next action response, (posts thread).2.next action response)) after := by
  refine ⟨?_, fun other => ?_⟩
  · rw [Function.comp_update]
    exact located_act passing.1 (fun _ writes => invariant.exclusive _ writes) allows performed
  · by_cases same : other = thread
    · subst same
      rw [Function.update_self]
      exact handed_own passing.1 invariant later allows suits performed (passing.2 other)
    · rw [Function.update_of_ne same]
      exact handed_other passing.1 (fun _ writes => invariant.exclusive _ writes) allows performed
        same (passing.2 other)

end Passing

def drainChronicle (config : SyncConfig) :
    Chronicle ((standingDiscipline config).both (accessDiscipline config)) (SyncCall.program config) where
  start := fun call => (.start call, none)
  Final := fun place => place.1.Idle
  Allowed := fun _ call => call.Sized
  Known := SyncMap.Invariant config True
  Invariant := fun _ posts map => Passing posts map
  follows := fun _ call sized => Discipline.follows_mono
    (Discipline.follows_both (call.program_conducts config) (call.tidy_program sized none))
    fun _ _ ends => ends.1
  begins := fun _ _ _ _ call _ _ passing idle => passing_called passing idle call
  acts := fun _ _ _ _ _ _ _ known passing allows performed later =>
    passing_act passing known later allows.1 allows.2 performed

theorem applied_current {system : System (syncMachine config)} {past : SyncEvents config}
    {posts : Nat → Standing × BufferAnswer} (kept : (drainChronicle config).Kept past posts system)
    (invariant : SyncMap.Invariant config True system.shared) {thread bucketIdx : Nat} {slot : Fin 4}
    {next : Unit → SyncProgram config Unit}
    (program : system.programs thread = .act (SyncAction.onAccess bucketIdx slot) next) :
    let map : SyncMap := system.shared
    let position := (map.accessBuffer.threads thread).position
    ∃ event : Access 64, (map.accessBuffer.threads thread).call = .popped (some event) ∧
      (position, event) ∈ map.accessBuffer.ring.delivered ∧
      map.accessBuffer.ring.accepted[position]? = some event ∧
      map.pushedIn[position]? = some map.generation ∧
      bucketIdx = event.1.toNat ∧ bucketIdx < map.layout.numBuckets ∧ slot.val = event.2.toNat := by
  intro map position
  have follows := kept.follows thread
  rw [program] at follows
  obtain ⟨event, answered, rfl, place⟩ := follows.1.2
  obtain ⟨call, drained⟩ := kept.invariant.2 thread _ answered
  have current := drained event rfl
  have inRange := invariant.inRange.calls thread
  have ring : map.accessBuffer.ring.Invariant 12 := (invariant.buffered trivial).ring.ring
  rw [call] at inRange
  exact ⟨event, call, current.delivered, ring.exact _ _ current.delivered, current.pushed, rfl, inRange,
    place.trans (Nat.mod_eq_of_lt current.slot)⟩

theorem drains_in_layout (config : SyncConfig) (numBuckets : Nat)
    (small : numBuckets ≤ SyncMap.maxBuckets) (moves : SyncMoves) (sized : moves.Sized)
    (unlapped : SyncUnlapped config numBuckets moves) : DrainsInLayout config numBuckets moves := by
  have holds : ∀ past future, moves = past ++ future →
      (syncProtocol config True).Holds SyncMap.Idle (syncRun config numBuckets past) := by
    rintro past future rfl
    apply sync_run_holds config True small past
    · exact fun thread call member => sized thread call (List.mem_append_left _ member)
    · exact fun _ front back split => unlapped front (back ++ future) (by rw [split, List.append_assoc])
  have around : ∀ past thread future, moves = past ++ .step thread :: future →
      SyncMap.Invariant config True (syncRun config numBuckets past).shared ∧
        SyncMap.Invariant config True (syncRun config numBuckets (past ++ [.step thread])).shared := by
    intro past thread future split
    have next := holds (past ++ [Move.step thread]) future (by rw [split, List.append_assoc]; rfl)
    exact ⟨(holds past _ split).invariant, next.invariant⟩
  refine ⟨?_, ?_, ?_, ?_⟩
  · intro thread panics
    have safe := (holds moves [] (List.append_nil _).symm).safe thread
    rw [panics] at safe
    exact safe.1
  · intro past thread future position event split before after delivered
    obtain ⟨invariant, later⟩ := around past thread future split
    rcases sync_run_step config numBuckets past thread with same | ⟨action, next, response, _, performed⟩
    · rw [show after = before from same] at delivered
      exact absurd (List.self_eq_append_right.mp delivered) (List.cons_ne_nil _ _)
    · exact delivery_current invariant later performed delivered
  · intro past thread future bucketIdx slot response split event
    have start : (drainChronicle config).Kept [] (fun _ => (.outside, none))
        (syncSystem config numBuckets) := by
      refine ⟨fun _ => ⟨⟨rfl, rfl, rfl⟩, rfl, rfl⟩, Located.new numBuckets, ?_⟩
      exact fun _ _ answered => by cases answered
    obtain ⟨posts, kept⟩ := Chronicle.kept_run start past
      (fun front back same => (holds front (back ++ .step thread :: future)
        (by rw [split, same, List.append_assoc])).invariant)
      fun other call member => sized other call (by rw [split]; exact List.mem_append_left _ member)
    obtain ⟨next, after, program, _⟩ := System.event_acted event
    exact applied_current kept (around past thread future split).1 program
  · intro past thread future split before after different
    obtain ⟨invariant, later⟩ := around past thread future split
    rcases sync_run_step config numBuckets past thread with same | ⟨action, next, response, program, performed⟩
    · exact absurd (congrArg SyncMap.generation same) different
    · rcases SyncMap.perform_generation performed with same | ⟨⟨newActual, rfl⟩, grown, buffer, pushed⟩
      · exact absurd same different
      · have sizedPast : SyncMoves.Sized past := fun other call member =>
          sized other call (by rw [split]; exact List.mem_append_left _ member)
        obtain ⟨writes, alone⟩ := rehash_alone small sizedPast program
        refine ⟨writes, alone, ?_⟩
        intro position below
        by_contra undelivered
        have marked := (invariant.buffered trivial).current position below undelivered
        have next := (later.buffered trivial).current position (by rw [buffer]; exact below)
          (by rw [buffer]; exact undelivered)
        -- The event would have been pushed under two layouts.
        rw [pushed, marked, grown] at next
        exact absurd (Option.some.inj next) (by omega)

/-- Every entry of a schedule overlaps a buffer call by one reservation at most. -/
theorem overlap_le_length (moves : SyncMoves) (thread : Nat) :
    ((SyncMap.accessBuffer (syncRun config numBuckets moves).shared).threads thread).overlap ≤
      moves.length := by
  induction moves using List.reverseRecOn with
  | nil => exact le_rfl
  | append_singleton past move induction =>
      rw [List.length_append, List.length_singleton]
      cases move with
      | call other call =>
          have same : (syncRun config numBuckets (past ++ [.call other call])).shared =
              (syncRun config numBuckets past).shared := by
            rw [syncRun, System.run_append]
            change ((syncRun config numBuckets past).move _ (.call other call)).shared = _
            rw [System.move]
            split_ifs <;> rfl
          rw [same]
          omega
      | step other =>
          rcases sync_run_step config numBuckets past other with same | ⟨_, _, _, _, performed⟩
          · rw [same]
            omega
          · rcases SyncMap.perform_buffer performed with ⟨same, _, _⟩ | ⟨access, _, acted, _⟩
            · rw [same]
              omega
            · rw [acted]
              have once := RingState.overlap_act
                (SyncMap.accessBuffer (syncRun config numBuckets past).shared) access thread
              exact once.trans (by omega)

theorem sync_unlapped_short (moves : SyncMoves) (short : moves.length < 2 ^ 63) :
    SyncUnlapped config numBuckets moves := by
  intro past future split thread _
  have bounded : ((SyncMap.accessBuffer (syncRun config numBuckets past).shared).threads thread).overlap ≤
      past.length := overlap_le_length past thread
  have shorter : past.length ≤ moves.length := by simp [split]
  exact bounded.trans_lt (by omega)

end Runs

/-- A lookup's event, drained by an insert of another thread. -/
theorem drains_in_layout_two_threads :
    let moves : SyncMoves := .call 0 (.insert [7] [70] 0) :: List.replicate 20 (.step 0) ++
      .call 1 (.get [7]) :: List.replicate 20 (.step 1) ++
      .call 0 (.insert [8] [80] 0) :: List.replicate 20 (.step 0)
    moves.Sized ∧ SyncUnlapped ⟨false, false, fun _ => 0⟩ 1 moves ∧
      DrainsInLayout ⟨false, false, fun _ => 0⟩ 1 moves ∧
      (SyncMap.accessBuffer (syncRun ⟨false, false, fun _ => 0⟩ 1 moves).shared).ring.delivered =
        [(0, (0, 0))] := by
  intro moves
  have sized : moves.Sized := by
    intro thread call member
    simp only [moves, List.cons_append, List.append_assoc, List.mem_cons, Move.call.injEq,
      List.mem_append, List.mem_replicate, reduceCtorEq, and_false, or_false, false_or] at member
    rcases member with ⟨_, rfl⟩ | ⟨_, rfl⟩ | ⟨_, rfl⟩
    · change 1 + 1 < 2 ^ 32
      decide
    · trivial
    · change 1 + 1 < 2 ^ 32
      decide
  have unlapped : SyncUnlapped ⟨false, false, fun _ => 0⟩ 1 moves :=
    sync_unlapped_short moves (by simp [moves])
  exact ⟨sized, unlapped, drains_in_layout _ 1 (by decide) moves sized unlapped, by decide +kernel⟩

end PulseMap
