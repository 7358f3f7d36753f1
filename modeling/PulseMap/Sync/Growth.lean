import PulseMap.Engine.RingSolo
import PulseMap.Sync.Operations

/-!
`resize` under the write lock. Nobody else is inside the map, so the clear of the access
buffer is a drain without interference: while no call is lapped it empties the buffer
completely. One pass of the retry loop then rebuilds the layout.
-/

namespace PulseMap

namespace SyncMap

open SyncProgram

variable {config : SyncConfig} {exact : Prop} {thread : Nat} {map : SyncMap} {Result : Type}
  {post : Result → SyncMap → Prop}

structure Alone (thread : Nat) (layout : Layout) (buffer : RingState 64) (map : SyncMap) : Prop where
  writing : map.writer = some thread
  pending : Pending thread map
  layout : map.layout = layout
  buffer : map.accessBuffer = buffer

variable {layout : Layout} {buffer : RingState 64}

theorem alone_stable : Stable thread (Alone thread layout buffer) := by
  intro before after rely facts
  obtain ⟨sameLayout, _, sameBuffer, _, _⟩ := rely.exclusive facts.writing
  exact
    { writing := rely.writing.mpr facts.writing
      pending := pending_stable rely facts.pending
      layout := sameLayout.trans facts.layout
      buffer := sameBuffer.trans facts.buffer }

theorem alone_still (invariant : Invariant config exact map) (alone : Alone thread layout buffer map)
    (quiet : (buffer.threads thread).call.returned = true) : buffer.Still := by
  intro other
  by_contra busy
  rw [← alone.buffer] at busy quiet
  rcases invariant.active other (Bool.eq_false_iff.mpr busy) with reads | writes
  · rw [invariant.exclusive thread alone.writing] at reads
    simp at reads
  · rw [alone.writing] at writes
    rw [← Option.some.inj writes] at busy
    exact busy quiet

/-! ### The clear -/

theorem safe_complete_alone (fuel : Nat) (alone : Alone thread layout buffer map)
    (invariant : Invariant config exact map) :
    Safe config exact thread (completeCall fuel (buffer.threads thread).call)
      (fun result after => Alone thread layout (buffer.complete thread fuel) after ∧
        Invariant config exact after ∧
        result = ((buffer.complete thread fuel).threads thread).call) map := by
  induction fuel generalizing buffer map with
  | zero => exact ⟨alone, invariant, rfl⟩
  | succ fuel induction =>
      unfold completeCall RingState.complete
      split_ifs with ended
      · exact ⟨alone, invariant, rfl⟩
      · apply safe_atomic
        intro before response after rely beforeInvariant assumed performed
        have here := alone_stable map before rely alone
        have guarantee := guarantee_buffer beforeInvariant assumed (Or.inr here.writing)
          (.step thread) rfl trivial
        simp only [perform] at performed
        obtain ⟨rfl, rfl⟩ := Prod.mk.inj (Option.some.inj performed)
        have moved : Alone thread layout (buffer.advance thread)
            (before.bufferAct (.step thread)) :=
          { writing := here.writing
            pending := here.pending
            layout := here.layout
            buffer := congrArg (fun state => RingState.advance state thread) here.buffer }
        refine ⟨guarantee, ?_⟩
        rw [moved.buffer]
        exact induction moved guarantee.invariant

theorem safe_pop_alone (alone : Alone thread layout buffer map)
    (quiet : (buffer.threads thread).call.returned = true) :
    Safe config exact thread pop
      (fun result after => Alone thread layout (buffer.popped thread) after ∧
        Invariant config exact after ∧ result = buffer.ring.buffer.pop.map Prod.fst) map := by
  apply safe_atomic
  intro before response after rely invariant assumed performed
  have here := alone_stable map before rely alone
  have guarantee := guarantee_buffer invariant assumed (Or.inr here.writing) (.pop thread) rfl trivial
  simp only [perform] at performed
  obtain ⟨rfl, rfl⟩ := Prod.mk.inj (Option.some.inj performed)
  have started : Alone thread layout (buffer.act (.pop thread)) (before.bufferAct (.pop thread)) :=
    { writing := here.writing
      pending := here.pending
      layout := here.layout
      buffer := congrArg (fun state => RingState.act state (.pop thread)) here.buffer }
  refine ⟨guarantee, Protocol.safe_bind ?_⟩
  rw [started.buffer]
  apply Protocol.safe_mono (safe_complete_alone 5 started guarantee.invariant)
  rintro result final ⟨alone, invariant, rfl⟩
  rw [RingState.complete_pop quiet] at alone ⊢
  rw [RingState.popped_call]
  exact ⟨alone, invariant, rfl⟩

/-- The clear ends with an empty queue: its budget is the length of the buffer, and no
other call is between reservation and publication. -/
theorem safe_clear (budget : Nat) (alone : Alone thread layout buffer map)
    (quiet : (buffer.threads thread).call.returned = true) (invariant : Invariant config exact map)
    (enough : exact → buffer.ring.accepted.length ≤ buffer.ring.claims + budget) :
    Safe config exact thread (clear budget)
      (fun _ after => Invariant config exact after ∧ ∃ final, Alone thread layout final after ∧
        (final.threads thread).call.returned = true ∧
        (exact → final.ring.claims = final.ring.accepted.length)) map := by
  induction budget generalizing buffer map with
  | zero =>
      refine ⟨invariant, buffer, alone, quiet, ?_⟩
      intro holds
      have queued := (invariant.buffered holds).ring.ring.queued
      rw [alone.buffer] at queued
      have bounded := enough holds
      omega
  | succ budget induction =>
      apply Protocol.safe_bind
      apply Protocol.safe_mono (safe_pop_alone alone quiet)
      rintro result popped ⟨alonePopped, invariantPopped, rfl⟩
      have quietPopped : ((buffer.popped thread).threads thread).call.returned = true := by
        rw [RingState.popped_call]
        rfl
      obtain ⟨accepted, claims⟩ := RingState.popped_counts buffer thread
      cases found : buffer.ring.buffer.pop with
      | none =>
          refine ⟨invariantPopped, _, alonePopped, quietPopped, ?_⟩
          intro holds
          have ring := (invariant.buffered holds).ring
          rw [alone.buffer] at ring
          rw [accepted, claims, found]
          exact RingState.still_pop_none ring (by decide) (alone_still invariant alone quiet) found
      | some pair =>
          apply induction alonePopped quietPopped invariantPopped
          intro holds
          rw [accepted, claims, found]
          have bounded := enough holds
          simp
          omega

theorem alone_transit (invariant : Invariant config exact map)
    (writes : map.writer = some thread) : map.transit = Layout.still := by
  funext bucket
  apply invariant.moving
  cases held : map.locks bucket with
  | none => rfl
  | some holder =>
      have reads := (invariant.locked bucket holder held).1
      rw [invariant.exclusive thread writes] at reads
      simp at reads

/-! ### The write lock -/

theorem guarantee_write_lock (invariant : Invariant config exact map) (idle : Idle thread map)
    (free : map.writer = none) (nobody : map.readers = ∅) :
    Guarantee config exact thread map { map with writer := some thread } := by
  apply guarantee_locks invariant map.readers (some thread) map.locks map.slabHolder
  · exact fun other _ => Iff.rfl
  · intro other different
    simp [free, different.symm]
  · exact fun other _ _ => Iff.rfl
  · exact fun other _ => Iff.rfl
  · exact fun bucket held => absurd held (idle.locks bucket)
  · exact fun bucket other held => absurd held (idle.locks bucket)
  · exact fun _ _ => nobody
  · exact invariant.moving
  · exact fun held => absurd held idle.slab
  · exact fun _ => Or.inr rfl

theorem guarantee_write_unlock (invariant : Invariant config exact map)
    (writes : map.writer = some thread) (quiet : Quiet thread map) :
    Guarantee config exact thread map { map with writer := none } := by
  have outside : thread ∉ map.readers := by
    rw [invariant.exclusive thread writes]
    simp
  apply guarantee_locks invariant map.readers none map.locks map.slabHolder
  · exact fun other _ => Iff.rfl
  · intro other different
    simp [writes, different.symm]
  · exact fun other _ _ => Iff.rfl
  · exact fun other _ => Iff.rfl
  · exact fun bucket held => absurd (invariant.locked bucket thread held).1 outside
  · exact fun bucket other held => absurd (invariant.locked bucket thread held).1 outside
  · simp
  · exact invariant.moving
  · exact fun held => absurd (invariant.slab thread held) outside
  · intro busy
    rw [quiet] at busy
    simp at busy

theorem idle_write_unlock (invariant : Invariant config exact map)
    (writes : map.writer = some thread) (quiet : Quiet thread map) :
    Idle thread { map with writer := none } := by
  have nobody := invariant.exclusive thread writes
  have outside : thread ∉ map.readers := by simp [nobody]
  exact
    { reading := outside
      writing := by simp
      locks := fun bucket held => outside (invariant.locked bucket thread held).1
      slab := fun held => outside (invariant.slab thread held)
      call := quiet }

theorem safe_unwind_write (alone : Alone thread layout buffer map)
    (quiet : (buffer.threads thread).call.returned = true) (oversized : map.Oversized config) :
    Safe config exact thread (unwindWrite : SyncProgram config Result) post map := by
  apply safe_atomic _ fun _ => Program.panic
  intro current response after rely invariant _ performed
  have here := alone_stable _ _ rely alone
  have quietHere : Quiet thread current := by
    unfold Quiet
    rw [here.buffer]
    exact quiet
  simp only [perform] at performed
  obtain rfl := (Prod.mk.inj (Option.some.inj performed)).2
  have idle := idle_write_unlock invariant here.writing quietHere
  have asked : current.Oversized config := oversized_stable rely oversized
  exact ⟨guarantee_poison (guarantee_write_unlock invariant here.writing quietHere) asked, rfl,
    idle.reading, idle.writing, idle.locks, idle.slab, idle.call⟩

theorem safe_write_inner {Facts : SyncMap → Prop} (stable : Stable thread Facts)
    (keeps : ∀ map writer, Facts map → Facts { map with writer := writer }) (facts : Facts map)
    (idle : Idle thread map) (pending : Pending thread map)
    (next : Unit → SyncProgram config Result)
    (continues : ∀ current, Invariant config exact current →
      Alone thread current.layout current.accessBuffer current → Quiet thread current →
      Facts current → Safe config exact thread (next ()) post current) :
    Safe config exact thread (writeInner >>= next) post map := by
  apply safe_atomic
  intro before response entered rely invariant _ performed
  simp only [perform] at performed
  split_ifs at performed with free
  obtain rfl := (Prod.mk.inj (Option.some.inj performed)).2
  have idleHere := idle_stable rely idle
  have pendingHere := pending_stable rely pending
  have factsHere := keeps before (some thread) (stable map before rely facts)
  have alone : Alone thread before.layout before.accessBuffer { before with writer := some thread } :=
    ⟨rfl, pendingHere, rfl, rfl⟩
  refine ⟨guarantee_write_lock invariant idleHere free.1 free.2, ?_⟩
  apply safe_atomic
  intro current poisoned after rely invariant _ performed
  obtain ⟨rfl, rfl⟩ := Prod.mk.inj (Option.some.inj performed)
  have here := alone_stable _ _ rely alone
  have quiet : Quiet thread current := quiet_stable rely idleHere.call
  have now : Alone thread current.layout current.accessBuffer current :=
    ⟨here.writing, here.pending, rfl, rfl⟩
  refine ⟨guarantee_none invariant, ?_⟩
  cases spoiled : current.poisoned with
  | false => exact continues current invariant now quiet (stable _ current rely factsHere)
  | true => exact Protocol.safe_bind (safe_unwind_write now quiet (invariant.poisoned spoiled))

/-! ### The rebuilt layout -/

/-- The retry loop succeeds on its first pass, unless the layout cannot be allocated. -/
theorem safe_rehash_loop (fuel many : Nat) (alone : Alone thread layout buffer map)
    (grows : layout.numBuckets ≤ 2 ^ many) (large : maxBuckets < 2 ^ many → map.Oversized config)
    (quiet : (buffer.threads thread).call.returned = true)
    (emptied : exact → buffer.ring.claims = buffer.ring.accepted.length) :
    Safe config exact thread (rehashLoop (fuel + 1) (2 ^ many))
      (fun _ after => ∃ layout, Alone thread layout buffer after) map := by
  apply safe_atomic
  intro current response after rely invariant _ performed
  have here := alone_stable map current rely alone
  have settled := alone_transit invariant here.writing
  have layoutInvariant := invariant.layout
  rw [settled, here.layout] at layoutInvariant
  obtain ⟨few, _, shape⟩ := layoutInvariant.shape
  have fewer : few ≤ many := by
    rw [shape] at grows
    exact (Nat.pow_le_pow_iff_right (by decide)).mp grows
  simp only [perform] at performed
  rcases Nat.lt_or_ge maxBuckets (2 ^ many) with tooLarge | possible
  · rw [Layout.rehash_oversize config _ tooLarge] at performed
    obtain ⟨rfl, rfl⟩ := Prod.mk.inj (Option.some.inj performed)
    exact ⟨guarantee_none invariant, safe_unwind_write here quiet (oversized_stable rely (large tooLarge))⟩
  have small : many ≤ 56 := (Nat.pow_le_pow_iff_right (by decide)).mp possible
  obtain ⟨rebuilt, rehashed, rebuiltInvariant, size, same⟩ :=
    Layout.rehash_spec layoutInvariant shape fewer small
  rw [here.layout, rehashed] at performed
  obtain ⟨rfl, rfl⟩ := Prod.mk.inj (Option.some.inj performed)
  have guarantee := guarantee_layout invariant here.writing rebuilt rebuiltInvariant settled
    (by rw [here.layout, size]; exact grows) (by rw [here.layout]; exact same) (by
      intro holds position below
      have ring := (invariant.buffered holds).ring
      rw [here.buffer] at ring below ⊢
      apply (RingState.still_published ring (alone_still invariant here quiet)).2
      rw [emptied holds]
      exact below)
  refine ⟨guarantee, ?_⟩
  have installed : Alone thread rebuilt buffer { current with
      layout := rebuilt, locks := fun _ => none, generation := current.generation + 1 } :=
    ⟨here.writing, here.pending, rfl, here.buffer⟩
  apply safe_atomic _ Program.done
  intro stored response final rely invariant _ performed
  have alone := alone_stable _ _ rely installed
  simp only [perform] at performed
  obtain rfl := (Prod.mk.inj (Option.some.inj performed)).2
  refine ⟨guarantee_counters thread invariant _ stored.evictionCount stored.currentEpoch
    stored.defaultTtl ?_, rebuilt, alone.writing, alone.pending, alone.layout, alone.buffer⟩
  intro other different writes
  rw [alone.writing] at writes
  exact absurd (Option.some.inj writes).symm different

theorem safe_lasting {Lasting : SyncMap → Prop} {program : SyncProgram config Result}
    (lasts : ∀ other, Stable other Lasting) (holds : Lasting map)
    (safe : Safe config exact thread program post map) :
    Safe config exact thread program (fun result after => post result after ∧ Lasting after) map :=
  Protocol.safe_lasting lasts holds safe

theorem safe_grow {newActual : Nat} (rounded : newActual = 0 ∨ ∃ many, newActual = 2 ^ many)
    (large : maxBuckets < newActual → map.Oversized config) (alone : Alone thread layout buffer map)
    (quiet : (buffer.threads thread).call.returned = true) (invariant : Invariant config exact map) :
    Safe config exact thread (grow newActual layout.numBuckets)
      (fun _ after => ∃ layout buffer, Alone thread layout buffer after ∧
        (buffer.threads thread).call.returned = true) map := by
  unfold grow
  split_ifs with enough
  · exact ⟨layout, buffer, alone, quiet⟩
  · obtain rfl | ⟨many, rfl⟩ := rounded
    · exact absurd (Nat.zero_le _) enough
    apply Protocol.safe_bind
    have bounded : exact → buffer.ring.accepted.length ≤ buffer.ring.claims + 4096 := by
      intro holds
      have room := (invariant.buffered holds).ring.ring.room
      rwa [alone.buffer] at room
    have lasts : ∀ other, Stable other fun map => maxBuckets < 2 ^ many → map.Oversized config :=
      fun _ _ _ rely large tooLarge => oversized_stable rely (large tooLarge)
    apply Protocol.safe_mono (safe_lasting lasts large (safe_clear 4096 alone quiet invariant bounded))
    rintro _ cleared ⟨⟨_, final, alone, quiet, emptied⟩, large⟩
    apply Protocol.safe_mono (safe_rehash_loop 63 many alone (by omega) large quiet emptied)
    rintro _ rebuilt ⟨layout, alone⟩
    exact ⟨layout, final, alone, quiet⟩

/-! ### Resize -/

/-- `large`: if the size cannot be allocated, it was asked for. -/
theorem safe_resize (newNumBuckets : Nat) (large : maxBuckets < newNumBuckets → map.Oversized config)
    (idle : Idle thread map) (pending : Pending thread map) :
    Safe config exact thread (resize newNumBuckets)
      (fun _ after => Idle thread after ∧ Pending thread after ∧ Did thread (· = .resize) after)
      map := by
  have lasts : Stable thread fun map => maxBuckets < newNumBuckets → map.Oversized config :=
    fun _ _ rely large tooLarge => oversized_stable rely (large tooLarge)
  apply safe_write_inner lasts (fun _ _ large => large) large idle pending
  intro entered _ alone entry large
  apply safe_read
  · intro current response after performed
    exact (Prod.mk.inj (Option.some.inj performed)).2.symm
  · intro current response rely invariant performed
    obtain ⟨rfl, _⟩ := Prod.mk.inj (Option.some.inj performed)
    have here := alone_stable _ _ rely alone
    apply Protocol.safe_bind
    rw [here.layout]
    apply Protocol.safe_mono (safe_grow (rounded_size_cases newNumBuckets)
      (fun tooLarge => lasts _ _ rely large (lt_of_max_lt_rounded tooLarge)) here entry invariant)
    rintro _ grown ⟨layout, buffer, alone, quiet⟩
    apply safe_atomic
    intro current response after rely invariant _ performed
    have here := alone_stable _ _ rely alone
    simp only [perform] at performed
    obtain rfl := (Prod.mk.inj (Option.some.inj performed)).2
    refine ⟨guarantee_commit invariant here.pending trivial (fun _ => rfl) here.writing, ?_⟩
    have committed : Committed thread .resize (current.record thread .resize) :=
      List.mem_append_right _ (List.mem_singleton.mpr rfl)
    have recorded : Alone thread layout buffer (current.record thread .resize) :=
      ⟨here.writing, Or.inr (Function.update_self ..), here.layout, here.buffer⟩
    apply safe_atomic _ Program.done
    intro last response final rely invariant _ performed
    have here := alone_stable _ _ rely recorded
    have quietHere : Quiet thread last := by
      unfold Quiet
      rw [here.buffer]
      exact quiet
    simp only [perform] at performed
    obtain rfl := (Prod.mk.inj (Option.some.inj performed)).2
    have committedHere := committed_stable rely committed
    exact ⟨guarantee_write_unlock invariant here.writing quietHere,
      idle_write_unlock invariant here.writing quietHere, here.pending, _, rfl, committedHere⟩

end SyncMap

end PulseMap
