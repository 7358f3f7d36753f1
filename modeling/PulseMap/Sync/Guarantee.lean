import PulseMap.Sync.Invariant

/-!
What each kind of action owes to the other threads. An action changes the counters and
the record, or the locks of its own thread, or one bucket its thread has locked together
with the slab pool, or the access buffer, or under the write lock the whole layout. One
lemma for each kind shows the invariant and the reliances of the others.
-/

namespace PulseMap

namespace SyncMap

variable {config : SyncConfig} {exact : Prop} {map : SyncMap} {thread : Nat}

/-! ### The record -/

theorem owned_append (history : List HistoryEntry) (entry : HistoryEntry) :
    owned (history ++ [entry]) = owned history ++
      if entry.event = .resize then [] else [(entry.thread, entry.call)] := by
  by_cases resize : entry.event = .resize <;> simp [owned, resize]

theorem answered_mono {history longer : List HistoryEntry} (grows : history <+: longer)
    {call : ReturnedCall} (answered : call.Answered history) : call.Answered longer := by
  obtain ⟨thread, number, request, result⟩ := call
  cases request <;> cases result <;> simp only [ReturnedCall.Answered] at answered ⊢
  case insert.done =>
    obtain ⟨victim, member⟩ := answered
    exact ⟨victim, grows.subset member⟩
  all_goals exact grows.subset answered

theorem recorded_event (recorded : map.Recorded) {event : SyncEvent}
    (pending : map.Pending thread) (legal : event.Legal (bindings map.history)) :
    (map.record thread event).Recorded := by
  have fresh := recorded.pending thread pending
  refine ⟨legal_append recorded.legal legal, ?_, ?_, ?_, ?_⟩
  · intro entry member
    rcases List.mem_append.mp member with old | new
    · exact recorded.numbered entry old
    · rw [List.mem_singleton.mp new]
      exact le_rfl
  · intro other otherPending member
    simp only [record, owned_append] at member
    by_cases same : other = thread
    · subst same
      have resize : event = .resize := by
        simpa [Pending, record] using otherPending
      rw [if_pos resize, List.append_nil] at member
      exact fresh member
    · have before : map.Pending other := by
        simpa [Pending, record, same] using otherPending
      rcases List.mem_append.mp member with old | new
      · exact recorded.pending other before old
      · split_ifs at new
        · simp at new
        · exact same (Prod.mk.inj (List.mem_singleton.mp new)).1
  · simp only [record, owned_append]
    split_ifs
    · simpa using recorded.once
    · refine List.nodup_append.mpr ⟨recorded.once, List.nodup_singleton _, ?_⟩
      intro old member new newMember same
      rw [List.mem_singleton] at newMember
      rw [same, newMember] at member
      exact fresh member
  · intro call member
    exact answered_mono (List.prefix_append _ _) (recorded.answered call member)

abbrev Guarantee (config : SyncConfig) (exact : Prop) (thread : Nat) (before after : SyncMap) :
    Prop :=
  (syncProtocol config exact).Guarantee thread before after

theorem guarantee_none (invariant : map.Invariant config exact) :
    Guarantee config exact thread map map :=
  ⟨invariant, obeys_content rfl rfl, fun other _ => Rely.refl other map⟩

theorem guarantee_record (invariant : map.Invariant config exact) (count evictionCount : Nat)
    (currentEpoch defaultTtl : Word) (calls : Nat → Nat) (outcome : Nat → Option SyncEvent)
    (started : List StartedCall) (returned : List ReturnedCall) (history : List HistoryEntry)
    (longer : map.history <+: history) (more : map.started ⊆ started)
    (others : ∀ other, other ≠ thread →
      calls other = map.calls other ∧ outcome other = map.outcome other)
    (counted : ∀ other, other ≠ thread → map.writer = some other → count = map.count)
    (reflects : map.layout.Reflects history)
    (recorded : Recorded { map with
      calls := calls, outcome := outcome, returned := returned, history := history })
    (commits : Commits config thread map history) :
    Guarantee config exact thread map { map with
      count := count, evictionCount := evictionCount, currentEpoch := currentEpoch,
      defaultTtl := defaultTtl, calls := calls, outcome := outcome, started := started,
      returned := returned, history := history } where
  invariant :=
    { layout := invariant.layout
      locked := invariant.locked
      single := invariant.single
      exclusive := invariant.exclusive
      moving := invariant.moving
      slab := invariant.slab
      active := invariant.active
      inRange := invariant.inRange
      reflects := reflects
      recorded := ⟨recorded.legal, recorded.numbered, recorded.pending, recorded.once,
        recorded.answered⟩
      poisoned := fun poisoned => (invariant.poisoned poisoned).imp
        (fun ⟨call, member, asked⟩ => ⟨call, more member, asked⟩) id
      buffered := fun holds =>
        have buffered := invariant.buffered holds
        ⟨buffered.ring, buffered.pushed, buffered.delivered, buffered.current, buffered.matched⟩ }
  obeys := ⟨keeps_content rfl, commits⟩
  rely := fun other different =>
    { reading := Iff.rfl
      writing := Iff.rfl
      locks := fun _ => Iff.rfl
      slab := Iff.rfl
      layout := fun _ => ⟨rfl, rfl⟩
      bucket := fun _ _ => ⟨rfl, rfl, rfl, fun _ => rfl⟩
      entries := fun _ _ _ _ _ => rfl
      call := rfl
      calls := (others other different).1
      outcome := (others other different).2
      history := longer
      poisoned := id
      started := more
      grown := id
      exclusive := fun writes => ⟨rfl, rfl, rfl, counted other different writes, rfl⟩ }

theorem guarantee_locks (invariant : map.Invariant config exact) (readers : Finset Nat)
    (writer : Option Nat) (locks : Nat → Option Nat) (slabHolder : Option Nat)
    (reading : ∀ other, other ≠ thread → (other ∈ readers ↔ other ∈ map.readers))
    (writing : ∀ other, other ≠ thread → (writer = some other ↔ map.writer = some other))
    (holding : ∀ other, other ≠ thread → ∀ bucket,
      (locks bucket = some other ↔ map.locks bucket = some other))
    (slab : ∀ other, other ≠ thread → (slabHolder = some other ↔ map.slabHolder = some other))
    (inside : ∀ bucket, locks bucket = some thread →
      thread ∈ readers ∧ bucket < map.layout.numBuckets)
    (single : ∀ bucket other, locks bucket = some thread → locks other = some thread →
      bucket = other)
    (exclusive : ∀ holder, writer = some holder → readers = ∅)
    (settled : ∀ bucket, locks bucket = none → map.transit bucket = none)
    (slabInside : slabHolder = some thread → thread ∈ readers)
    (active : (map.accessBuffer.threads thread).call.returned = false →
      thread ∈ readers ∨ writer = some thread) :
    Guarantee config exact thread map { map with
      readers := readers, writer := writer, locks := locks, slabHolder := slabHolder } where
  invariant :=
    { layout := invariant.layout
      locked := by
        intro bucket holder held
        by_cases same : holder = thread
        · subst same
          exact inside bucket held
        · have before := (holding holder same bucket).mp held
          exact ⟨(reading holder same).mpr (invariant.locked bucket holder before).1,
            (invariant.locked bucket holder before).2⟩
      single := by
        intro bucket other holder held otherHeld
        by_cases same : holder = thread
        · subst same
          exact single bucket other held otherHeld
        · exact invariant.single bucket other holder ((holding holder same bucket).mp held)
            ((holding holder same other).mp otherHeld)
      exclusive := exclusive
      moving := settled
      slab := by
        intro holder held
        by_cases same : holder = thread
        · subst same
          exact slabInside held
        · exact (reading holder same).mpr (invariant.slab holder ((slab holder same).mp held))
      active := by
        intro holder busy
        by_cases same : holder = thread
        · subst same
          exact active busy
        · rcases invariant.active holder busy with reads | writes
          · exact Or.inl ((reading holder same).mpr reads)
          · exact Or.inr ((writing holder same).mpr writes)
      inRange := invariant.inRange
      reflects := invariant.reflects
      recorded :=
        have recorded := invariant.recorded
        ⟨recorded.legal, recorded.numbered, recorded.pending, recorded.once, recorded.answered⟩
      poisoned := invariant.poisoned
      buffered := fun holds =>
        have buffered := invariant.buffered holds
        ⟨buffered.ring, buffered.pushed, buffered.delivered, buffered.current, buffered.matched⟩ }
  obeys := obeys_content rfl rfl
  rely := fun other different =>
    { reading := reading other different
      writing := writing other different
      locks := holding other different
      slab := slab other different
      layout := fun _ => ⟨rfl, rfl⟩
      bucket := fun _ _ => ⟨rfl, rfl, rfl, fun _ => rfl⟩
      entries := fun _ _ _ _ _ => rfl
      call := rfl
      calls := rfl
      outcome := rfl
      history := List.prefix_refl _
      poisoned := id
      started := fun _ member => member
      grown := id
      exclusive := fun _ => ⟨rfl, rfl, rfl, rfl, rfl⟩ }

/-- No other thread relies on the lock being clean. -/
theorem guarantee_poison {after : SyncMap} (kept : Guarantee config exact thread map after)
    (oversized : after.Oversized config) :
    Guarantee config exact thread map { after with poisoned := true } where
  invariant :=
    have invariant := kept.invariant
    { layout := invariant.layout
      locked := invariant.locked
      single := invariant.single
      exclusive := invariant.exclusive
      moving := invariant.moving
      slab := invariant.slab
      active := invariant.active
      inRange := invariant.inRange
      reflects := invariant.reflects
      recorded :=
        have recorded := invariant.recorded
        ⟨recorded.legal, recorded.numbered, recorded.pending, recorded.once, recorded.answered⟩
      poisoned := fun _ => oversized
      buffered := fun holds =>
        have buffered := invariant.buffered holds
        ⟨buffered.ring, buffered.pushed, buffered.delivered, buffered.current, buffered.matched⟩ }
  obeys := ⟨kept.obeys.keeps, kept.obeys.commits⟩
  rely := fun other different =>
    have rely := kept.rely other different
    { reading := rely.reading
      writing := rely.writing
      locks := rely.locks
      slab := rely.slab
      layout := rely.layout
      bucket := rely.bucket
      entries := rely.entries
      call := rely.call
      calls := rely.calls
      outcome := rely.outcome
      history := rely.history
      poisoned := fun _ => rfl
      started := rely.started
      grown := rely.grown
      exclusive := rely.exclusive }

theorem no_writer (invariant : map.Invariant config exact) (reads : thread ∈ map.readers)
    (other : Nat) : map.writer ≠ some other := by
  intro writes
  rw [invariant.exclusive other writes] at reads
  simp at reads

theorem guarantee_bucket (invariant : map.Invariant config exact) {bucket : Nat}
    (held : map.locks bucket = some thread) (layout : Layout) (transit : Transit)
    (history : List HistoryEntry) (outcome : Nat → Option SyncEvent)
    (shape : layout.numBuckets = map.layout.numBuckets ∧
      layout.bucketMask = map.layout.bucketMask)
    (outside : ∀ other, other ≠ bucket → layout.buckets other = map.layout.buckets other ∧
      layout.content other = map.layout.content other ∧ transit other = map.transit other ∧
      ∀ slot : Fin 4, layout.epochs (other * 4 + slot.val) =
        map.layout.epochs (other * 4 + slot.val))
    (kept : ∀ (position : Position) idx, position.1 ≠ bucket →
      map.layout.own map.transit position = some idx →
      layout.slabPool.get idx = map.layout.slabPool.get idx)
    (layoutInvariant : layout.Invariant config transit)
    (longer : map.history <+: history)
    (others : ∀ other, other ≠ thread → outcome other = map.outcome other)
    (reflects : layout.Reflects history)
    (recorded : Recorded { map with history := history, outcome := outcome })
    (keeps : Keeps config thread map { map with
      layout := layout, transit := transit, history := history, outcome := outcome })
    (commits : Commits config thread map history) :
    Guarantee config exact thread map { map with
      layout := layout, transit := transit, history := history, outcome := outcome } where
  invariant :=
    { layout := layoutInvariant
      locked := by
        intro other holder locked
        rw [shape.1]
        exact invariant.locked other holder locked
      single := invariant.single
      exclusive := invariant.exclusive
      moving := by
        intro other free
        have different : other ≠ bucket := by
          rintro rfl
          simp [held] at free
        exact (outside other different).2.2.1.trans (invariant.moving other free)
      slab := invariant.slab
      active := invariant.active
      inRange := by
        rw [shape.1]
        exact invariant.inRange
      reflects := reflects
      recorded := ⟨recorded.legal, recorded.numbered, recorded.pending, recorded.once,
        recorded.answered⟩
      poisoned := fun poisoned => (invariant.poisoned poisoned).imp id
        fun full => ⟨full.1, shape.1.trans full.2⟩
      buffered := fun holds =>
        have buffered := invariant.buffered holds
        ⟨buffered.ring, buffered.pushed, buffered.delivered, buffered.current, buffered.matched⟩ }
  obeys := ⟨keeps, commits⟩
  rely := by
    intro other different
    have apart : ∀ place, map.locks place = some other → place ≠ bucket := by
      rintro place locked rfl
      rw [held] at locked
      exact different (Option.some.inj locked).symm
    exact
      { reading := Iff.rfl
        writing := Iff.rfl
        locks := fun _ => Iff.rfl
        slab := Iff.rfl
        layout := fun _ => shape
        bucket := fun place locked => outside place (apart place locked)
        entries := fun place slot idx locked owned => kept (place, slot) idx (apart place locked) owned
        call := rfl
        calls := rfl
        outcome := others other different
        history := longer
        poisoned := id
        started := fun _ member => member
        grown := fun full => shape.1.trans full
        exclusive := fun writes =>
          absurd writes (no_writer invariant (invariant.locked bucket thread held).1 other) }

/-! ### The access buffer -/

theorem buffered_act (buffered : map.Buffered) (unlapped : map.accessBuffer.Unlapped)
    (action : RingAction 64) : (map.bufferAct action).Buffered := by
  have ring := RingState.act_invariant buffered.ring unlapped (by decide) (by decide) (by decide)
    action
  obtain ⟨⟨moreAccepted, accepted⟩, ⟨moreDelivered, delivered⟩⟩ :=
    RingState.act_grows map.accessBuffer action
  have pushedIn : (map.bufferAct action).pushedIn =
      map.pushedIn ++ List.replicate moreAccepted.length map.generation := by
    simp [bufferAct, ← accepted]
  have deliveredIn : (map.bufferAct action).deliveredIn =
      map.deliveredIn ++ List.replicate moreDelivered.length map.generation := by
    simp [bufferAct, ← delivered]
  -- A position that was not delivered before is marked with the current layout.
  have marked : ∀ position < (map.accessBuffer.act action).ring.accepted.length,
      position ∉ map.accessBuffer.ring.released →
      (map.bufferAct action).pushedIn[position]? = some map.generation := by
    intro position below live
    rw [pushedIn]
    by_cases old : position < map.accessBuffer.ring.accepted.length
    · rw [List.getElem?_append_left (by rw [buffered.pushed]; exact old)]
      exact buffered.current position old live
    · rw [← accepted, List.length_append] at below
      rw [List.getElem?_append_right (by rw [buffered.pushed]; omega), buffered.pushed,
        List.getElem?_replicate, if_pos (by omega)]
  refine ⟨ring, ?_, ?_, ?_, ?_⟩
  · rw [pushedIn, List.length_append, List.length_replicate, buffered.pushed]
    simp [bufferAct, ← accepted]
  · rw [deliveredIn, List.length_append, List.length_replicate, buffered.delivered]
    simp [bufferAct, ← delivered]
  · intro position below live
    apply marked position below
    intro member
    apply live
    have shown : position ∈ (map.accessBuffer.act action).ring.released := by
      rw [Ring.released, ← delivered, List.map_append]
      exact List.mem_append_left _ member
    exact shown
  · intro index position event found
    have found : (map.accessBuffer.ring.delivered ++ moreDelivered)[index]? =
        some (position, event) := by rw [delivered]; exact found
    by_cases old : index < map.accessBuffer.ring.delivered.length
    · rw [List.getElem?_append_left old] at found
      obtain ⟨generation, mark, pushed⟩ := buffered.matched index position event found
      refine ⟨generation, ?_, ?_⟩
      · rw [deliveredIn, List.getElem?_append_left (by rw [buffered.delivered]; exact old)]
        exact mark
      · have below := (List.getElem?_eq_some_iff.mp pushed).1
        rw [pushedIn, List.getElem?_append_left below]
        exact pushed
    · rw [List.getElem?_append_right (by omega)] at found
      have new := List.mem_of_getElem? found
      have inside := (List.getElem?_eq_some_iff.mp found).1
      refine ⟨map.generation, ?_, ?_⟩
      · rw [deliveredIn, List.getElem?_append_right (by rw [buffered.delivered]; omega),
          buffered.delivered, List.getElem?_replicate, if_pos inside]
      · apply marked position
        · have member : (position, event) ∈ (map.accessBuffer.act action).ring.delivered := by
            rw [← delivered]
            exact List.mem_append_right _ new
          exact (List.getElem?_eq_some_iff.mp (ring.ring.exact position event member)).1
        · -- Positions are delivered once, so this one was not delivered before.
          intro member
          have once := ring.ring.once
          rw [Ring.released, ← delivered, List.map_append, List.nodup_append] at once
          exact once.2.2 position member position (List.mem_map_of_mem new) rfl

theorem guarantee_buffer (invariant : map.Invariant config exact)
    (assumed : exact → map.accessBuffer.Unlapped)
    (inside : thread ∈ map.readers ∨ map.writer = some thread) (action : RingAction 64)
    (own : action.thread = thread) (bounded : action.InRange map.layout.numBuckets) :
    Guarantee config exact thread map (map.bufferAct action) where
  invariant :=
    { layout := invariant.layout
      locked := invariant.locked
      single := invariant.single
      exclusive := invariant.exclusive
      moving := invariant.moving
      slab := invariant.slab
      active := by
        intro holder busy
        by_cases same : holder = thread
        · subst same
          exact inside
        · have unchanged := RingState.act_other map.accessBuffer action
            (by rw [own]; exact same : holder ≠ action.thread)
          exact invariant.active holder (by rw [← unchanged]; exact busy)
      inRange := RingState.act_in_range invariant.inRange bounded
      reflects := invariant.reflects
      recorded :=
        have recorded := invariant.recorded
        ⟨recorded.legal, recorded.numbered, recorded.pending, recorded.once, recorded.answered⟩
      poisoned := invariant.poisoned
      buffered := fun holds => buffered_act (invariant.buffered holds) (assumed holds) action }
  obeys := obeys_content rfl rfl
  rely := fun other different =>
    { reading := Iff.rfl
      writing := Iff.rfl
      locks := fun _ => Iff.rfl
      slab := Iff.rfl
      layout := fun _ => ⟨rfl, rfl⟩
      bucket := fun _ _ => ⟨rfl, rfl, rfl, fun _ => rfl⟩
      entries := fun _ _ _ _ _ => rfl
      call := RingState.act_other map.accessBuffer action (by rw [own]; exact different)
      calls := rfl
      outcome := rfl
      history := List.prefix_refl _
      poisoned := id
      started := fun _ member => member
      grown := id
      exclusive := by
        intro writes
        rcases inside with reads | ownWrites
        · exact absurd writes (no_writer invariant reads other)
        · rw [ownWrites] at writes
          exact absurd (Option.some.inj writes).symm different }

/-! ### A new layout -/

theorem full_grows {layout : Layout} {transit : Transit} (invariant : layout.Invariant config transit)
    (grows : map.layout.numBuckets ≤ layout.numBuckets)
    (full : map.layout.numBuckets = maxBuckets) : layout.numBuckets = maxBuckets :=
  le_antisymm (Layout.bucket_bound invariant) (full ▸ grows)

/-- The writer installs a new layout with the same triples, after emptying the buffer. -/
theorem guarantee_layout (invariant : map.Invariant config exact)
    (writes : map.writer = some thread) (layout : Layout)
    (layoutInvariant : layout.Invariant config Layout.still)
    (settled : map.transit = Layout.still) (grows : map.layout.numBuckets ≤ layout.numBuckets)
    (same : layout.entries.Perm map.layout.entries)
    (emptied : exact → ∀ position < map.accessBuffer.ring.accepted.length,
      position ∈ map.accessBuffer.ring.released) :
    Guarantee config exact thread map { map with
      layout := layout, locks := fun _ => none, generation := map.generation + 1 } where
  invariant :=
    { layout := by
        rw [settled]
        exact layoutInvariant
      locked := by simp
      single := by simp
      exclusive := invariant.exclusive
      moving := by simp [settled, Layout.still]
      slab := invariant.slab
      active := invariant.active
      inRange := RingState.in_range_mono invariant.inRange grows
      reflects := by
        have before := invariant.layout
        rw [settled] at before
        exact Layout.reflects_entries before layoutInvariant same invariant.reflects
      recorded :=
        have recorded := invariant.recorded
        ⟨recorded.legal, recorded.numbered, recorded.pending, recorded.once, recorded.answered⟩
      poisoned := fun poisoned => (invariant.poisoned poisoned).imp id
        fun full => ⟨full.1, full_grows layoutInvariant grows full.2⟩
      buffered := fun holds =>
        have buffered := invariant.buffered holds
        { ring := buffered.ring
          pushed := buffered.pushed
          delivered := buffered.delivered
          current := fun position below live => absurd (emptied holds position below) live
          matched := buffered.matched } }
  obeys := by
    refine ⟨?_, Or.inl rfl⟩
    intro position key value held
    have before := invariant.layout
    rw [settled] at before
    have bound := (invariant.reflects key value).mp ⟨position, held⟩
    have after := Layout.reflects_entries before layoutInvariant same invariant.reflects
    obtain ⟨place, here⟩ := (after key value).mpr bound
    exact Or.inl ⟨place, value, here⟩
  rely := by
    intro other different
    have nobody : other ∉ map.readers := by
      rw [invariant.exclusive thread writes]
      simp
    have unlocked : ∀ bucket, map.locks bucket ≠ some other := fun bucket held =>
      nobody (invariant.locked bucket other held).1
    exact
      { reading := Iff.rfl
        writing := Iff.rfl
        locks := fun bucket => by simp [unlocked bucket]
        slab := Iff.rfl
        layout := fun reads => absurd reads nobody
        bucket := fun bucket held => absurd held (unlocked bucket)
        entries := fun bucket slot idx held => absurd held (unlocked bucket)
        call := rfl
        calls := rfl
        outcome := rfl
        history := List.prefix_refl _
        poisoned := id
        started := fun _ member => member
        grown := full_grows layoutInvariant grows
        exclusive := by
          intro otherWrites
          rw [writes] at otherWrites
          exact absurd (Option.some.inj otherWrites).symm different }

end SyncMap

end PulseMap
