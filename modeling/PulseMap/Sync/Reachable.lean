import PulseMap.Sync.Growth

/-!
Every call of the map is safe, so every schedule of calls keeps the invariant: whatever
the threads call and however their actions interleave.
-/

namespace PulseMap

namespace SyncMap

open SyncProgram

variable {config : SyncConfig} {exact : Prop} {thread : Nat} {map : SyncMap} {Result : Type}
  {post : Result → SyncMap → Prop}

/-! ### The calls -/

theorem safe_auto_resize (idle : Idle thread map) (pending : Pending thread map) :
    Safe config exact thread autoResize
      (fun _ after => Idle thread after ∧ Pending thread after) map := by
  unfold autoResize
  split_ifs with automatic
  · apply safe_read_lock idle pending
    intro current invariant unlocked draining
    obtain ⟨ongoing, quiet⟩ := draining 0
    let Facts := fun map : SyncMap => Pending thread map ∧
      (maxBuckets < current.layout.numBuckets * 2 → map.Oversized config)
    have stable : Stable thread Facts := fun before after rely facts =>
      ⟨pending_stable rely facts.1, fun tooLarge => oversized_stable rely (facts.2 tooLarge)⟩
    have facts : Facts current := ⟨ongoing.pending, fun tooLarge =>
      Or.inr ⟨automatic, Layout.full_of_doubled invariant.layout tooLarge⟩⟩
    apply safe_read
    · intro current response after performed
      exact (Prod.mk.inj (Option.some.inj performed)).2.symm
    · intro counted len rely _ _
      have inside : Inside thread counted := inside_stable rely ⟨ongoing.reading, unlocked, ongoing.slab⟩
      apply safe_read_unlock stable (fun _ _ facts => facts) (stable _ _ rely facts) inside
        (quiet_stable rely quiet)
      intro after _ idle facts
      split_ifs
      · apply Protocol.safe_mono (safe_resize _ facts.2 idle facts.1)
        exact fun _ final facts => ⟨facts.1, facts.2.1⟩
      · exact ⟨idle, facts.1⟩
  · exact ⟨idle, pending⟩

def Returns (thread : Nat) (call : SyncCall) (result : SyncResult) (map : SyncMap) : Prop :=
  ReturnedCall.Answered ⟨thread, map.calls thread, call, result⟩ map.history

theorem returns_stable {call : SyncCall} {result : SyncResult} :
    Stable thread (Returns thread call result) := by
  intro before after rely facts
  unfold Returns
  rw [rely.calls]
  exact answered_mono rely.history facts

theorem safe_insert {key value : Bytes} (small : key.length + value.length < 2 ^ 32) (ttl : Word)
    (idle : Idle thread map) (pending : Pending thread map) :
    Safe config exact thread (insertInternal key value ttl)
      (fun result after => Idle thread after ∧ Returns thread (.insert key value ttl) result after)
      map := by
  apply Protocol.safe_bind
  apply Protocol.safe_mono (safe_auto_resize idle pending)
  rintro _ resized ⟨idle, pending⟩
  apply safe_atomic
  intro current response after rely invariant _ performed
  simp only [perform] at performed
  obtain rfl := (Prod.mk.inj (Option.some.inj performed)).2
  have idleHere := idle_stable rely idle
  have pendingHere := pending_stable rely pending
  have idleAfter : Idle thread { current with currentEpoch := current.currentEpoch + 1 } :=
    ⟨idleHere.reading, idleHere.writing, idleHere.locks, idleHere.slab, idleHere.call⟩
  refine ⟨guarantee_counters thread invariant current.count current.evictionCount _
    current.defaultTtl (fun _ _ _ => rfl), ?_⟩
  apply Protocol.safe_bind
  apply Protocol.safe_mono (safe_with_bucket
    (fun _ event => ∃ victim, event = .insert key value victim) idleAfter pendingHere
    (fun _ _ invariant draining unlocked => safe_drain drainBatch invariant draining unlocked)
    (fun _ _ _ _ invariant critical pending => safe_insert_body small ttl invariant critical pending))
  rintro _ final ⟨idle, event, ⟨victim, rfl⟩, committed⟩
  exact ⟨idle, victim, committed⟩

theorem safe_read_bucket {key : Bytes} {body : Nat → Bucket → SyncProgram config Result}
    (event : Result → SyncEvent) (idle : Idle thread map) (pending : Pending thread map)
    (inner : ∀ bucketIdx bucket content current, Invariant config exact current →
      Critical config thread (config.hash key).h1 bucketIdx bucket content none current →
      Pending thread current →
      Safe config exact thread (body bucketIdx bucket)
        (fun result => Settled config thread (config.hash key).h1 bucketIdx (· = event result))
        current) :
    Safe config exact thread (withBucket (config.hash key).h1 (pure ()) body)
      (fun result after => Idle thread after ∧ Committed thread (event result) after) map := by
  have nothing : ∀ bucketIdx current, Invariant config exact current →
      Draining config thread (config.hash key).h1 bucketIdx current → Unlocked thread current →
      Safe config exact thread (pure ()) (fun _ after => Invariant config exact after ∧
        Draining config thread (config.hash key).h1 bucketIdx after ∧ Unlocked thread after) current :=
    fun _ _ invariant draining unlocked => ⟨invariant, draining, unlocked⟩
  apply Protocol.safe_mono (safe_with_bucket (fun result found => found = event result) idle pending
    nothing inner)
  rintro result final ⟨idle, _, rfl, committed⟩
  exact ⟨idle, committed⟩

theorem safe_capacity (idle : Idle thread map) (pending : Pending thread map) :
    Safe config exact thread capacity
      (fun result after => Idle thread after ∧ Returns thread .capacity result after) map := by
  apply safe_read_lock idle pending
  intro current _ unlocked draining
  obtain ⟨ongoing, quiet⟩ := draining 0
  apply safe_read_unlock (fun before after rely facts => quiet_stable rely facts)
    (fun _ _ facts => facts) quiet ⟨ongoing.reading, unlocked, ongoing.slab⟩ quiet
  intro after _ idle _
  exact ⟨idle, trivial⟩

theorem safe_body (call : SyncCall) (sized : call.Sized)
    (begun : ⟨thread, map.calls thread, call⟩ ∈ map.started) (idle : Idle thread map)
    (pending : Pending thread map) :
    Safe config exact thread (call.body config)
      (fun result after => Idle thread after ∧ Returns thread call result after) map := by
  cases call with
  | insert key value ttl => exact safe_insert sized ttl idle pending
  | get key =>
      apply Protocol.safe_bind
      apply Protocol.safe_mono (safe_read_bucket (.read key) idle pending
        fun _ _ _ _ invariant critical pending => safe_get_body invariant critical pending)
      exact fun _ _ facts => facts
  | peek key =>
      apply Protocol.safe_bind
      apply Protocol.safe_mono (safe_read_bucket (.read key) idle pending
        fun _ _ _ _ invariant critical pending => safe_peek_body invariant critical pending)
      exact fun _ _ facts => facts
  | remove key =>
      apply Protocol.safe_bind
      apply Protocol.safe_mono (safe_read_bucket (.remove key) idle pending
        fun _ _ _ _ invariant critical pending => safe_remove_body invariant critical pending)
      exact fun _ _ facts => facts
  | resize newNumBuckets =>
      apply Protocol.safe_bind
      apply Protocol.safe_mono (safe_resize newNumBuckets
        (fun tooLarge => Or.inl ⟨_, begun, newNumBuckets, rfl, tooLarge⟩) idle pending)
      rintro _ final ⟨idle, _, _, rfl, committed⟩
      exact ⟨idle, committed⟩
  | setTtl ttl =>
      apply safe_atomic
      intro current response after rely invariant _ performed
      have here := idle_stable rely idle
      simp only [perform] at performed
      obtain rfl := (Prod.mk.inj (Option.some.inj performed)).2
      refine ⟨guarantee_counters thread invariant current.count current.evictionCount
        current.currentEpoch ttl (fun _ _ _ => rfl), ?_, trivial⟩
      exact ⟨here.reading, here.writing, here.locks, here.slab, here.call⟩
  | capacity => exact safe_capacity idle pending

/-! ### Whole calls -/

theorem guarantee_begin (invariant : Invariant config exact map) (thread : Nat) (call : SyncCall) :
    Guarantee config exact thread map { map with
      calls := Function.update map.calls thread (map.calls thread + 1)
      outcome := Function.update map.outcome thread none
      started := map.started ++ [⟨thread, map.calls thread + 1, call⟩] } := by
  have recorded := invariant.recorded
  apply guarantee_record invariant map.count map.evictionCount map.currentEpoch map.defaultTtl
    (Function.update map.calls thread (map.calls thread + 1))
    (Function.update map.outcome thread none) _ map.returned map.history (List.prefix_refl _)
    (List.subset_append_left _ _)
  · exact fun other different =>
      ⟨Function.update_of_ne different _ _, Function.update_of_ne different _ _⟩
  · exact fun _ _ _ => rfl
  · exact invariant.reflects
  · refine ⟨recorded.legal, ?_, ?_, recorded.once, recorded.answered⟩
    · intro entry member
      have before := recorded.numbered entry member
      by_cases same : entry.thread = thread
      · rw [same] at before
        simp only [same, Function.update_self]
        omega
      · simpa [same] using before
    · intro other pending member
      by_cases same : other = thread
      · subst same
        -- The number is new, so no entry of the history has it.
        simp only [owned, Function.update_self, List.mem_map] at member
        obtain ⟨entry, kept, number⟩ := member
        obtain ⟨sameThread, sameCall⟩ := Prod.mk.inj number
        have before := recorded.numbered entry (List.mem_filter.mp kept).1
        rw [sameThread, sameCall] at before
        omega
      · have pendingBefore : map.Pending other := by simpa [Pending, same] using pending
        apply recorded.pending other pendingBefore
        simpa [same] using member
  · exact Or.inl rfl

theorem guarantee_finish (invariant : Invariant config exact map) {call : SyncCall}
    {result : SyncResult} (returns : Returns thread call result map) :
    Guarantee config exact thread map { map with
      returned := map.returned ++ [⟨thread, map.calls thread, call, result⟩] } := by
  have recorded := invariant.recorded
  apply guarantee_record invariant map.count map.evictionCount map.currentEpoch map.defaultTtl
    map.calls map.outcome map.started _ map.history (List.prefix_refl _) (List.Subset.refl _)
  · exact fun _ _ => ⟨rfl, rfl⟩
  · exact fun _ _ _ => rfl
  · exact invariant.reflects
  · refine ⟨recorded.legal, recorded.numbered, recorded.pending, recorded.once, ?_⟩
    intro other member
    rcases List.mem_append.mp member with old | new
    · exact recorded.answered other old
    · rw [List.mem_singleton.mp new]
      exact returns
  · exact Or.inl rfl

theorem safe_program (call : SyncCall) (sized : call.Sized) (idle : Idle thread map) :
    Safe config exact thread (call.program config) (fun _ => Idle thread) map := by
  apply safe_atomic
  intro current response after rely invariant _ performed
  have here := idle_stable rely idle
  simp only [perform] at performed
  obtain rfl := (Prod.mk.inj (Option.some.inj performed)).2
  have begun : Idle thread { current with
      calls := Function.update current.calls thread (current.calls thread + 1)
      outcome := Function.update current.outcome thread none
      started := current.started ++ [⟨thread, current.calls thread + 1, call⟩] } :=
    ⟨here.reading, here.writing, here.locks, here.slab, here.call⟩
  refine ⟨guarantee_begin invariant thread call, ?_⟩
  apply Protocol.safe_bind
  apply Protocol.safe_mono (safe_body call sized (by simp) begun (Or.inl (Function.update_self ..)))
  rintro result answered ⟨idle, returns⟩
  apply safe_atomic _ Program.done
  intro current response after rely invariant _ performed
  have here := idle_stable rely idle
  have returnsHere := returns_stable answered current rely returns
  simp only [perform] at performed
  obtain rfl := (Prod.mk.inj (Option.some.inj performed)).2
  exact ⟨guarantee_finish invariant returnsHere,
    here.reading, here.writing, here.locks, here.slab, here.call⟩

theorem new_invariant (config : SyncConfig) (exact : Prop) {numBuckets : Nat}
    (small : numBuckets ≤ 2 ^ 56) : (SyncMap.new numBuckets).Invariant config exact := by
  obtain ⟨bits, bounded, size⟩ := next_power_bits small
  have positive : 0 < (Layout.new numBuckets).numBuckets := by
    simp [Layout.new, Layout.fresh, nextPowerOfTwo]
  exact
    { layout := by
        simp only [SyncMap.new, Layout.new, size]
        exact Layout.fresh_invariant config bounded
      locked := by simp [SyncMap.new]
      single := by simp [SyncMap.new]
      exclusive := by simp [SyncMap.new]
      moving := by simp [SyncMap.new]
      slab := by simp [SyncMap.new]
      poisoned := fun poisoned => by cases poisoned
      active := by simp [SyncMap.new, RingState.new, BufferCall.returned]
      inRange := by
        refine ⟨?_, fun _ => trivial⟩
        intro cell
        simpa [SyncMap.new, RingState.new, Ring.new, AccessBuffer.new, Access.decode] using positive
      reflects := by simp [Layout.Reflects, SyncMap.new, Layout.new, Layout.fresh, bindings]
      recorded :=
        { legal := legal_nil
          numbered := by simp [SyncMap.new]
          pending := by simp [SyncMap.new, owned]
          once := by simp [SyncMap.new, owned]
          answered := by simp [SyncMap.new] }
      buffered := fun _ =>
        { ring := RingState.new_invariant 4096 12 (by simp [nextPowerOfTwo]; decide)
          pushed := rfl
          delivered := rfl
          current := by simp [SyncMap.new, RingState.new, Ring.new]
          matched := by simp [SyncMap.new, RingState.new, Ring.new] } }

end SyncMap

/-! ### Schedules -/

abbrev SyncMoves := List (Move SyncCall)

def SyncMoves.Sized (moves : SyncMoves) : Prop :=
  ∀ thread call, .call thread call ∈ moves → call.Sized

def syncRun (config : SyncConfig) (numBuckets : Nat) (moves : SyncMoves) : System (syncMachine config) :=
  (syncSystem config numBuckets).run (SyncCall.program config) moves

/-- No buffer call of the schedule is overlapped by half a turn of reservations. -/
def SyncUnlapped (config : SyncConfig) (numBuckets : Nat) (moves : SyncMoves) : Prop :=
  ∀ past future, moves = past ++ future →
    RingState.Unlapped (SyncMap.accessBuffer (syncRun config numBuckets past).shared)

theorem sync_run_holds (config : SyncConfig) (exact : Prop) {numBuckets : Nat}
    (small : numBuckets ≤ 2 ^ 56) (moves : SyncMoves) (sized : moves.Sized)
    (assumed : exact → SyncUnlapped config numBuckets moves) :
    (syncProtocol config exact).Holds SyncMap.Idle (syncRun config numBuckets moves) := by
  apply Protocol.holds_run (SyncCall.program config) SyncCall.Sized
  · refine ⟨SyncMap.new_invariant config exact small, ?_⟩
    intro thread
    exact ⟨by simp [syncSystem, SyncMap.new], by simp [syncSystem, SyncMap.new],
      by simp [syncSystem, SyncMap.new], by simp [syncSystem, SyncMap.new], rfl⟩
  · exact fun thread before after rely idle => SyncMap.idle_stable rely idle
  · exact fun thread call map sized _ idle => SyncMap.safe_program call sized idle
  · exact fun past future split holds => assumed holds past future split
  · exact sized

end PulseMap
