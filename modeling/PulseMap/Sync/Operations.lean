import PulseMap.Sync.Frame

/-!
The critical sections of insert, get, peek and remove. Each ends with its bucket settled
and with the one event committed that its answer stands for.
-/

namespace PulseMap

namespace SyncMap

open SyncProgram

variable {config : SyncConfig} {exact : Prop} {thread bucketIdx : Nat} {map : SyncMap}
  {bucket : Bucket} {content : Content} {moving : Option (Fin 4 × Option Nat)} {h1 : Word}
  {Result : Type} {post : Result → SyncMap → Prop} {Facts : SyncMap → Prop}

/-! ### Counters, stamps and commits -/

theorem guarantee_counters (thread : Nat) (invariant : Invariant config exact map)
    (count evictionCount : Nat) (currentEpoch defaultTtl : Word)
    (counted : ∀ other, other ≠ thread → map.writer = some other → count = map.count) :
    Guarantee config exact thread map { map with
      count := count, evictionCount := evictionCount, currentEpoch := currentEpoch,
      defaultTtl := defaultTtl } :=
  have recorded := invariant.recorded
  guarantee_record invariant count evictionCount currentEpoch defaultTtl map.calls map.outcome
    map.started map.returned map.history (List.prefix_refl _) (List.Subset.refl _)
    (fun _ _ => ⟨rfl, rfl⟩) counted invariant.reflects
    ⟨recorded.legal, recorded.numbered, recorded.pending, recorded.once, recorded.answered⟩
    (Or.inl rfl)

theorem guarantee_commit (invariant : Invariant config exact map) (pending : Pending thread map)
    {event : SyncEvent} (legal : event.Legal (bindings map.history))
    (silent : ∀ state, event.apply state = state) (guards : Guards config thread map event) :
    Guarantee config exact thread map (map.record thread event) := by
  have recorded := recorded_event invariant.recorded pending legal
  apply guarantee_record invariant map.count map.evictionCount map.currentEpoch map.defaultTtl
    map.calls (Function.update map.outcome thread (some event)) map.started map.returned
    (map.history ++ [⟨thread, map.calls thread, event⟩]) (List.prefix_append _ _) (List.Subset.refl _)
  · exact fun other different => ⟨rfl, Function.update_of_ne different _ _⟩
  · exact fun _ _ _ => rfl
  · intro key value
    rw [bindings_append, silent]
    exact invariant.reflects key value
  · exact ⟨recorded.legal, recorded.numbered, recorded.pending, recorded.once, recorded.answered⟩
  · exact Or.inr ⟨event, guards, rfl⟩

theorem critical_counters (critical : Critical config thread h1 bucketIdx bucket content moving map)
    (count evictionCount : Nat) (currentEpoch defaultTtl : Word) :
    Critical config thread h1 bucketIdx bucket content moving { map with
      count := count, evictionCount := evictionCount, currentEpoch := currentEpoch,
      defaultTtl := defaultTtl } where
  locked :=
    { reading := critical.locked.reading
      lock := critical.locked.lock
      bucket := critical.locked.bucket
      content := critical.locked.content
      transit := critical.locked.transit }
  home := critical.home
  slab := critical.slab
  quiet := critical.quiet

theorem safe_effective_ttl (stable : Stable thread Facts) (entry : SlotTTL) (facts : Facts map) :
    Safe config exact thread (effectiveTtl entry) (fun _ after => Facts after) map := by
  unfold effectiveTtl
  split_ifs
  · apply safe_read _ Program.done
    · intro current response after performed
      exact (Prod.mk.inj (Option.some.inj performed)).2.symm
    · exact fun later _ rely _ _ => stable map later rely facts
  · exact facts

theorem safe_is_expired (stable : Stable thread Facts) (slot : Fin 4) (facts : Facts map) :
    Safe config exact thread (isExpired bucketIdx slot) (fun _ after => Facts after) map := by
  apply safe_read
  · intro current response after performed
    exact (Prod.mk.inj (Option.some.inj performed)).2.symm
  · intro current entry rely _ _
    apply Protocol.safe_bind
    apply Protocol.safe_mono (safe_effective_ttl stable entry (stable map current rely facts))
    intro ttl loaded holds
    split_ifs
    · exact holds
    · apply safe_read
      · intro current response after performed
        exact (Prod.mk.inj (Option.some.inj performed)).2.symm
      · exact fun later _ rely _ _ => stable loaded later rely holds

theorem safe_stamp_epoch {event : SyncEvent} (slot : Fin 4) (ttl : Word)
    (critical : Critical config thread h1 bucketIdx bucket content none map)
    (committed : Committed thread event map) :
    Safe config exact thread (stampEpoch bucketIdx slot ttl)
      (fun _ after => Critical config thread h1 bucketIdx bucket content none after ∧
        Committed thread event after) map := by
  apply safe_read
  · intro current response after performed
    exact (Prod.mk.inj (Option.some.inj performed)).2.symm
  · intro loaded epoch relied _ _
    apply safe_atomic _ Program.done
    intro current response after rely invariant _ performed
    have here := critical_stable _ _ rely (critical_stable _ _ relied critical)
    have committedHere := committed_stable rely (committed_stable relied committed)
    simp only [perform] at performed
    obtain rfl := (Prod.mk.inj (Option.some.inj performed)).2
    refine ⟨?_, ?_, committedHere⟩
    · apply guarantee_bucket invariant here.locked.lock
      · exact ⟨rfl, rfl⟩
      · intro other different
        refine ⟨rfl, rfl, rfl, ?_⟩
        intro place
        apply Function.update_of_ne
        omega
      · exact fun _ _ _ _ => rfl
      · exact Layout.set_epochs invariant.layout _
      · exact List.prefix_refl _
      · exact fun _ _ => rfl
      · exact invariant.reflects
      · exact
          have recorded := invariant.recorded
          ⟨recorded.legal, recorded.numbered, recorded.pending, recorded.once, recorded.answered⟩
      · exact keeps_content rfl
      · exact Or.inl rfl
    · exact
        { locked :=
            { reading := here.locked.reading
              lock := here.locked.lock
              bucket := here.locked.bucket
              content := here.locked.content
              transit := here.locked.transit }
          home := here.home
          slab := here.slab
          quiet := here.quiet }

theorem safe_counter (stable : Stable thread Facts)
    (keeps : ∀ map count evictionCount, Facts map →
      Facts { map with count := count, evictionCount := evictionCount })
    (action : SyncAction)
    (changes : ∀ current response after, perform config thread action current = some (response, after) →
      ∃ count evictionCount, after = { current with
        count := count, evictionCount := evictionCount })
    (critical : Critical config thread h1 bucketIdx bucket content moving map) (facts : Facts map)
    (next : action.Response → SyncProgram config Result)
    (continues : ∀ response after, Invariant config exact after →
      Critical config thread h1 bucketIdx bucket content moving after → Facts after →
      Safe config exact thread (next response) post after) :
    Safe config exact thread (atomic action >>= next) post map := by
  apply safe_atomic
  intro current response after rely invariant _ performed
  have here := critical_stable map current rely critical
  obtain ⟨count, evictionCount, rfl⟩ := changes current response after performed
  have guarantee := guarantee_counters thread invariant count evictionCount current.currentEpoch
    current.defaultTtl
    (fun other _ writes => absurd writes (no_writer invariant here.locked.reading other))
  exact ⟨guarantee, continues response _ guarantee.invariant (critical_counters here _ _ _ _)
    (keeps current _ _ (stable map current rely facts))⟩

theorem safe_commit {event : SyncEvent}
    (critical : Critical config thread h1 bucketIdx bucket content none map)
    (pending : Pending thread map)
    (legal : ∀ current, Invariant config exact current →
      Critical config thread h1 bucketIdx bucket content none current →
      event.Legal (bindings current.history))
    (guards : ∀ current, Critical config thread h1 bucketIdx bucket content none current →
      Guards config thread current event)
    (silent : ∀ state, event.apply state = state) (next : Unit → SyncProgram config Result)
    (continues : ∀ after, Critical config thread h1 bucketIdx bucket content none after →
      Committed thread event after → Safe config exact thread (next ()) post after) :
    Safe config exact thread (atomic (.commit event) >>= next) post map := by
  apply safe_atomic
  intro current response after rely invariant _ performed
  have here := critical_stable map current rely critical
  simp only [perform] at performed
  obtain rfl := (Prod.mk.inj (Option.some.inj performed)).2
  refine ⟨guarantee_commit invariant (pending_stable rely pending) (legal current invariant here)
    silent (guards current here), continues _ ?_ (List.mem_append_right _ (List.mem_singleton.mpr rfl))⟩
  exact
    { locked :=
        { reading := here.locked.reading
          lock := here.locked.lock
          bucket := here.locked.bucket
          content := here.locked.content
          transit := here.locked.transit }
      home := here.home
      slab := here.slab
      quiet := here.quiet }

/-! ### Insert -/

section Insert

variable {key value : Bytes} {slot : Fin 4}

theorem pending_critical_stable : Stable thread fun map =>
    Critical config thread h1 bucketIdx bucket content moving map ∧ Pending thread map :=
  fun before after rely facts =>
    ⟨critical_stable before after rely facts.1, pending_stable rely facts.2⟩

def Settled (config : SyncConfig) (thread : Nat) (h1 : Word) (bucketIdx : Nat)
    (events : SyncEvent → Prop) (map : SyncMap) : Prop :=
  (∃ bucket content, Critical config thread h1 bucketIdx bucket content none map) ∧
    Did thread events map

theorem safe_update_in_place (small : key.length + value.length < 2 ^ 32) (ttl : Word) {old : Bytes}
    (held : content slot = some (key, old)) (invariant : Invariant config exact map)
    (critical : Critical config thread h1 bucketIdx bucket content none map)
    (pending : Pending thread map) :
    Safe config exact thread (updateInPlace bucketIdx bucket slot key value ttl)
      (fun _ => Settled config thread h1 bucketIdx fun event => ∃ victim,
        event = .insert key value victim) map := by
  apply Protocol.safe_bind
  apply Protocol.safe_mono (safe_release_slab slot invariant critical pending)
  rintro _ freed ⟨invariant, moving, isFreed, critical, pending⟩
  apply Protocol.safe_bind
  apply Protocol.safe_mono (safe_store_pair small isFreed critical invariant pending _)
  rintro data stored ⟨moving, critical, ready, pending⟩
  apply safe_update_slot small held critical ready pending
  intro updated critical committed
  apply Protocol.safe_mono (safe_stamp_epoch slot ttl critical committed)
  rintro _ final ⟨critical, committed⟩
  exact ⟨⟨_, _, critical⟩, _, ⟨none, rfl⟩, committed⟩

theorem safe_place_into (small : key.length + value.length < 2 ^ 32) (ttl : Word) (isEviction : Bool)
    (sameHash : h1 = (config.hash key).h1) (absent : slotOf content key = none)
    (chosen : content slot ≠ none → ∀ other, bucket.metaWord.getState other = .full ∧
      bucket.metaWord.getPriority slot ≤ bucket.metaWord.getPriority other)
    (freed : Freed slot bucket moving) (invariant : Invariant config exact map)
    (critical : Critical config thread h1 bucketIdx bucket content moving map)
    (pending : Pending thread map) :
    Safe config exact thread (placeInto bucketIdx bucket slot isEviction key value ttl)
      (fun _ => Settled config thread h1 bucketIdx fun event => ∃ victim,
        event = .insert key value victim) map := by
  apply Protocol.safe_bind
  apply Protocol.safe_mono (safe_store_pair small freed critical invariant pending _)
  rintro data stored ⟨moving, critical, ready, pending⟩
  apply safe_place_slot small sameHash absent chosen critical ready pending
  intro placed critical committed
  apply Protocol.safe_bind
  apply Protocol.safe_mono (safe_stamp_epoch slot ttl critical committed)
  rintro _ stamped ⟨critical, committed⟩
  split_ifs
  · exact ⟨⟨_, _, critical⟩, _, ⟨_, rfl⟩, committed⟩
  · apply safe_counter (fun before after rely facts => committed_stable rely facts)
      (fun _ _ _ facts => facts) .addCount _ critical committed Program.done
    · exact fun _ after _ critical committed => ⟨⟨_, _, critical⟩, _, ⟨_, rfl⟩, committed⟩
    · intro current response after performed
      exact ⟨_, _, (Prod.mk.inj (Option.some.inj performed)).2.symm⟩

theorem safe_insert_body (small : key.length + value.length < 2 ^ 32) (ttl : Word)
    (invariant : Invariant config exact map)
    (critical : Critical config thread (config.hash key).h1 bucketIdx bucket content none map)
    (pending : Pending thread map) :
    Safe config exact thread (insertBody key value ttl bucketIdx bucket)
      (fun _ => Settled config thread (config.hash key).h1 bucketIdx fun event => ∃ victim,
        event = .insert key value victim) map := by
  have metaAgrees : MetaAgrees config.wyhash bucket content := by
    rw [← critical.locked.bucket, ← critical.locked.content]
    exact invariant.layout.metaAgrees bucketIdx
  have slotAgrees : ∀ slot, content slot = none → (bucket.slots slot).slabIndex = none := by
    intro slot vacant
    have agrees := invariant.layout.slotAgrees bucketIdx slot (by simp [critical.locked.transit])
    rw [critical.locked.bucket, critical.locked.content] at agrees
    simp only [SlotAgrees, vacant] at agrees
    exact Slot.slab_index_inline agrees
  apply Protocol.safe_bind
  apply Protocol.safe_mono (safe_find_slot pending_critical_stable (fun _ facts => facts.1.locked)
    key (bucket.candidates (config.hash key)) (candidates_full metaAgrees _) ⟨critical, pending⟩
    invariant)
  rintro found searched ⟨⟨critical, pending⟩, invariant, same⟩
  have sameSlot : found = slotOf content key := same.trans (candidates_find metaAgrees key)
  cases found with
  | some slot =>
      obtain ⟨old, held⟩ := slot_of_some sameSlot.symm
      exact safe_update_in_place small ttl held invariant critical pending
  | none =>
      cases free : bucket.metaWord.findFreeSlot with
      | some slot =>
          have notFull := (MetaWord.find_free_slot_some free).1
          have vacant : content slot = none := by
            by_contra held
            exact notFull ((meta_full_iff metaAgrees slot).mpr (Option.isSome_iff_ne_none.mpr held))
          exact safe_place_into small ttl false rfl sameSlot.symm (fun held => absurd vacant held)
            (Or.inr ⟨rfl, slotAgrees slot vacant⟩) invariant critical pending
      | none =>
          have allFull := MetaWord.find_free_slot_none.mp free
          cases evict : bucket.metaWord.findEvictTarget with
          | none => exact absurd (allFull 0) (MetaWord.find_evict_target_none evict 0)
          | some slot =>
              obtain ⟨_, least⟩ := MetaWord.find_evict_target_some evict
              apply Protocol.safe_bind
              apply Protocol.safe_mono (safe_release_slab slot invariant critical pending)
              rintro _ released ⟨_, moving, freed, critical, pending⟩
              apply safe_counter (fun before after rely facts => pending_stable rely facts)
                (fun _ _ _ facts => facts) .addEvictionCount _ critical pending
              · intro _ counted invariant critical pending
                exact safe_place_into small ttl true rfl sameSlot.symm
                  (fun _ other => ⟨allFull other, (least other (allFull other)).1⟩) freed invariant
                  critical pending
              · intro current response after performed
                exact ⟨_, _, (Prod.mk.inj (Option.some.inj performed)).2.symm⟩

end Insert

/-! ### Get and peek -/

section Read

variable {key : Bytes}

/-- What a lookup of a key may answer: its value, or nothing when it is absent or expired. -/
def Answers (content : Content) (key : Bytes) (found : Option Bytes) : Prop :=
  ∀ value, found = some value → ∃ slot, content slot = some (key, value)

theorem answers_legal {found : Option Bytes} (answers : Answers content key found)
    (invariant : Invariant config exact map)
    (critical : Critical config thread h1 bucketIdx bucket content none map) :
    SyncEvent.Legal (bindings map.history) (.read key found) := by
  cases found with
  | none => trivial
  | some value =>
      obtain ⟨slot, held⟩ := answers value rfl
      rw [← critical.locked.content] at held
      exact (invariant.reflects key value).mp ⟨(bucketIdx, slot), held⟩

theorem safe_commit_read {found : Option Bytes} (answers : Answers content key found)
    (critical : Critical config thread (config.hash key).h1 bucketIdx bucket content none map)
    (pending : Pending thread map) :
    Safe config exact thread (do
        atomic (.commit (.read key found))
        pure found)
      (fun found => Settled config thread (config.hash key).h1 bucketIdx (· = .read key found))
      map := by
  apply safe_commit critical pending
  · exact fun current invariant here => answers_legal answers invariant here
  · exact fun current here => by
      rw [Guards, here.home]
      exact here.locked.lock
  · exact fun _ => rfl
  · intro after critical committed
    exact ⟨⟨_, _, critical⟩, _, rfl, committed⟩

theorem safe_get_value (stable : Stable thread Facts)
    (locked : ∀ map, Facts map → Locked thread bucketIdx bucket content none map) {slot : Fin 4}
    {name text : Bytes} (held : content slot = some (name, text)) (facts : Facts map)
    (invariant : Invariant config exact map) :
    Safe config exact thread (getValue (bucket.slots slot))
      (fun found after => Facts after ∧ found = some text) map := by
  unfold getValue
  split_ifs with mode
  · refine ⟨facts, ?_⟩
    rcases locked_stores locked map invariant facts held with ⟨_, _, value⟩ | ⟨slabMode, _⟩
    · rw [value]
    · rw [mode] at slabMode
      exact absurd slabMode (by decide)
  · apply safe_read
    · intro current response after performed
      simp only [perform] at performed
      split_ifs at performed
      exact (Prod.mk.inj (Option.some.inj performed)).2.symm
    · intro current response rely invariant performed
      have here := stable map current rely facts
      have answer : response = some text := by
        simp only [perform] at performed
        split_ifs at performed
        rw [← Slot.stores_value (locked_stores locked current invariant here held)]
        exact (Prod.mk.inj (Option.some.inj performed)).1.symm
      subst answer
      exact ⟨here, rfl⟩

/-- A critical section without what a buffer call changes. -/
structure Reading (config : SyncConfig) (thread : Nat) (h1 : Word) (bucketIdx : Nat) (bucket : Bucket)
    (content : Content) (map : SyncMap) : Prop where
  locked : Locked thread bucketIdx bucket content none map
  bound : bucketIdx < map.layout.numBuckets
  home : config.bucketIndex h1 map.layout.bucketMask = bucketIdx
  slab : map.slabHolder ≠ some thread
  pending : Pending thread map

theorem reading_stable : Stable thread (Reading config thread h1 bucketIdx bucket content) := by
  intro before after rely facts
  obtain ⟨size, mask⟩ := rely.layout facts.locked.reading
  exact
    { locked := locked_stable rely facts.locked
      bound := by
        rw [size]
        exact facts.bound
      home := by
        rw [mask]
        exact facts.home
      slab := fun held => facts.slab (rely.slab.mp held)
      pending := pending_stable rely facts.pending }

theorem reading_buffer (map : SyncMap) (action : RingAction 64)
    (facts : Reading config thread h1 bucketIdx bucket content map) :
    Reading config thread h1 bucketIdx bucket content (map.bufferAct action) where
  locked :=
    { reading := facts.locked.reading
      lock := facts.locked.lock
      bucket := facts.locked.bucket
      content := facts.locked.content
      transit := facts.locked.transit }
  bound := facts.bound
  home := facts.home
  slab := facts.slab
  pending := facts.pending

theorem reading_quiet_stable : Stable thread fun map =>
    Reading config thread h1 bucketIdx bucket content map ∧ Quiet thread map :=
  fun before after rely facts =>
    ⟨reading_stable before after rely facts.1, quiet_stable rely facts.2⟩

theorem safe_get_found (invariant : Invariant config exact map)
    (critical : Critical config thread (config.hash key).h1 bucketIdx bucket content none map)
    (pending : Pending thread map) :
    Safe config exact thread (getFound key bucketIdx bucket)
      (fun found after => Answers content key found ∧
        Reading config thread (config.hash key).h1 bucketIdx bucket content after ∧
        Quiet thread after) map := by
  have metaAgrees : MetaAgrees config.wyhash bucket content := by
    rw [← critical.locked.bucket, ← critical.locked.content]
    exact invariant.layout.metaAgrees bucketIdx
  have reading : Reading config thread (config.hash key).h1 bucketIdx bucket content map :=
    ⟨critical.locked, (invariant.locked bucketIdx thread critical.locked.lock).2, critical.home,
      critical.slab, pending⟩
  have missed : Answers content key none := fun _ same => absurd same (by simp)
  apply Protocol.safe_bind
  apply Protocol.safe_mono (safe_get_slot reading_quiet_stable (fun _ facts => facts.1.locked)
    key (bucket.candidates (config.hash key)) (candidates_full metaAgrees _)
    ⟨reading, critical.quiet⟩ invariant)
  rintro found searched ⟨facts, _, same⟩
  have sameSlot : found = slotOf content key := same.trans (candidates_find metaAgrees key)
  cases found with
  | none => exact ⟨missed, facts⟩
  | some slot =>
      obtain ⟨text, held⟩ := slot_of_some sameSlot.symm
      apply Protocol.safe_bind
      apply Protocol.safe_mono (safe_is_expired reading_quiet_stable slot facts)
      intro expired checked facts
      split_ifs
      · exact ⟨missed, facts⟩
      · apply Protocol.safe_bind
        apply Protocol.safe_mono (safe_push reading_stable
          (fun _ facts => Or.inl facts.locked.reading) reading_buffer slot
          (fun _ facts => facts.bound) facts.1)
        rintro _ pushed ⟨reading, invariant, quiet⟩
        apply Protocol.safe_mono (safe_get_value reading_quiet_stable
          (fun _ facts => facts.1.locked) held ⟨reading, quiet⟩ invariant)
        rintro found final ⟨facts, rfl⟩
        refine ⟨?_, facts⟩
        rintro value same
        rw [← Option.some.inj same]
        exact ⟨slot, held⟩

theorem safe_get_body (invariant : Invariant config exact map)
    (critical : Critical config thread (config.hash key).h1 bucketIdx bucket content none map)
    (pending : Pending thread map) :
    Safe config exact thread (getBody key bucketIdx bucket)
      (fun found => Settled config thread (config.hash key).h1 bucketIdx (· = .read key found))
      map := by
  apply Protocol.safe_bind
  apply Protocol.safe_mono (safe_get_found invariant critical pending)
  rintro found final ⟨answers, reading, quiet⟩
  exact safe_commit_read answers ⟨reading.locked, reading.home, reading.slab, quiet⟩ reading.pending

/-! ### Peek -/

structure Peeking (config : SyncConfig) (thread : Nat) (h1 : Word) (bucketIdx : Nat) (bucket : Bucket)
    (content : Content) (map : SyncMap) : Prop where
  locked : Locked thread bucketIdx bucket content none map
  home : config.bucketIndex h1 map.layout.bucketMask = bucketIdx
  quiet : Quiet thread map
  pending : Pending thread map

theorem peeking_stable : Stable thread (Peeking config thread h1 bucketIdx bucket content) := by
  intro before after rely facts
  exact
    { locked := locked_stable rely facts.locked
      home := by
        rw [(rely.layout facts.locked.reading).2]
        exact facts.home
      quiet := quiet_stable rely facts.quiet
      pending := pending_stable rely facts.pending }

theorem guarantee_slab (invariant : Invariant config exact map) (reads : thread ∈ map.readers)
    (holder : Option Nat) (mine : ∀ other, other ≠ thread → holder ≠ some other)
    (free : ∀ other, other ≠ thread → map.slabHolder ≠ some other) :
    Guarantee config exact thread map { map with slabHolder := holder } := by
  apply guarantee_locks invariant map.readers map.writer map.locks holder
  · exact fun other _ => Iff.rfl
  · exact fun other _ => Iff.rfl
  · exact fun other _ _ => Iff.rfl
  · exact fun other different =>
      ⟨fun held => absurd held (mine other different), fun held => absurd held (free other different)⟩
  · exact fun bucket held => invariant.locked bucket thread held
  · exact fun bucket other held otherHeld => invariant.single bucket other thread held otherHeld
  · exact invariant.exclusive
  · exact invariant.moving
  · exact fun _ => reads
  · exact fun _ => Or.inl reads

theorem peeking_holder (map : SyncMap) (holder : Option Nat)
    (facts : Peeking config thread h1 bucketIdx bucket content map) :
    Peeking config thread h1 bucketIdx bucket content { map with slabHolder := holder } where
  locked :=
    { reading := facts.locked.reading
      lock := facts.locked.lock
      bucket := facts.locked.bucket
      content := facts.locked.content
      transit := facts.locked.transit }
  home := facts.home
  quiet := facts.quiet
  pending := facts.pending

theorem safe_slab_lock (facts : Peeking config thread h1 bucketIdx bucket content map)
    (next : Unit → SyncProgram config Result)
    (continues : ∀ after, Peeking config thread h1 bucketIdx bucket content after →
      after.slabHolder = some thread → Safe config exact thread (next ()) post after) :
    Safe config exact thread (atomic .slabLock >>= next) post map := by
  apply safe_atomic
  intro current response after rely invariant _ performed
  have here := peeking_stable map current rely facts
  simp only [perform] at performed
  split_ifs at performed with free
  obtain rfl := (Prod.mk.inj (Option.some.inj performed)).2
  refine ⟨guarantee_slab invariant here.locked.reading _ ?_ ?_,
    continues _ (peeking_holder current _ here) rfl⟩
  · exact fun other different same => different (Option.some.inj same).symm
  · simp [free]

theorem safe_slab_unlock (facts : Peeking config thread h1 bucketIdx bucket content map)
    (held : map.slabHolder = some thread) (next : Unit → SyncProgram config Result)
    (continues : ∀ after, Critical config thread h1 bucketIdx bucket content none after →
      Pending thread after → Invariant config exact after →
      Safe config exact thread (next ()) post after) :
    Safe config exact thread (atomic .slabUnlock >>= next) post map := by
  apply safe_atomic
  intro current response after rely invariant _ performed
  have here := peeking_stable map current rely facts
  have mine := rely.slab.mpr held
  simp only [perform] at performed
  obtain rfl := (Prod.mk.inj (Option.some.inj performed)).2
  have opened := peeking_holder current none here
  have guarantee := guarantee_slab invariant here.locked.reading none (by simp)
    (fun other different same => different (Option.some.inj (same.symm.trans mine)))
  exact ⟨guarantee, continues _ ⟨opened.locked, opened.home, by simp, opened.quiet⟩ opened.pending
    guarantee.invariant⟩

theorem held_stable : Stable thread fun map =>
    Peeking config thread h1 bucketIdx bucket content map ∧ map.slabHolder = some thread :=
  fun before after rely facts => ⟨peeking_stable before after rely facts.1, rely.slab.mpr facts.2⟩

theorem safe_peek_slots (slots : List (Fin 4)) (full : ∀ slot ∈ slots, (content slot).isSome)
    (critical : Critical config thread h1 bucketIdx bucket content none map)
    (pending : Pending thread map) :
    Safe config exact thread (peekSlots key (config.hash key) bucketIdx bucket slots)
      (fun found after => Answers content key found ∧
        Critical config thread h1 bucketIdx bucket content none after ∧ Pending thread after) map := by
  have missed : Answers content key none := fun _ same => absurd same (by simp)
  have locked : ∀ map, Peeking config thread h1 bucketIdx bucket content map ∧
      map.slabHolder = some thread → Locked thread bucketIdx bucket content none map :=
    fun _ facts => facts.1.locked
  induction slots generalizing map with
  | nil => exact ⟨missed, critical, pending⟩
  | cons slot rest induction =>
      obtain ⟨⟨name, text⟩, held⟩ := Option.isSome_iff_exists.mp (full slot (by simp))
      apply safe_slab_lock ⟨critical.locked, critical.home, critical.quiet, pending⟩
      intro opened facts mine
      apply safe_read
      · intro current response after performed
        simp only [perform] at performed
        split_ifs at performed
        exact (Prod.mk.inj (Option.some.inj performed)).2.symm
      · intro current response rely invariant performed
        have here := held_stable opened current rely ⟨facts, mine⟩
        have answer : response = some (decide (name = key)) := by
          simp only [perform] at performed
          split_ifs at performed
          rw [← Slot.stores_matches (locked_stores locked current invariant here held) key]
          exact (Prod.mk.inj (Option.some.inj performed)).1.symm
        subst answer
        by_cases same : name = key
        · subst same
          simp only [orPanic, decide_true, Program.done_bind, if_true]
          apply Protocol.safe_bind
          apply Protocol.safe_mono (safe_is_expired held_stable slot here)
          rintro expired checked here
          split_ifs
          · apply safe_slab_unlock here.1 here.2
            exact fun after critical pending _ => ⟨missed, critical, pending⟩
          · apply safe_read
            · intro current response after performed
              simp only [perform] at performed
              split_ifs at performed
              exact (Prod.mk.inj (Option.some.inj performed)).2.symm
            · intro current response rely invariant performed
              have here := held_stable checked current rely here
              have answer : response = some text := by
                simp only [perform] at performed
                split_ifs at performed
                rw [← Slot.stores_value (locked_stores locked current invariant here held)]
                exact (Prod.mk.inj (Option.some.inj performed)).1.symm
              subst answer
              simp only [Program.done_bind]
              apply safe_slab_unlock here.1 here.2
              refine fun after critical pending _ => ⟨?_, critical, pending⟩
              intro value same
              rw [← Option.some.inj same]
              exact ⟨slot, held⟩
        · simp only [orPanic, same, decide_false, Program.done_bind, Bool.false_eq_true, if_false]
          apply safe_slab_unlock here.1 here.2
          intro after critical pending _
          exact induction (fun other member => full other (by simp [member])) critical pending

theorem safe_peek_body (invariant : Invariant config exact map)
    (critical : Critical config thread (config.hash key).h1 bucketIdx bucket content none map)
    (pending : Pending thread map) :
    Safe config exact thread (peekBody key bucketIdx bucket)
      (fun found => Settled config thread (config.hash key).h1 bucketIdx (· = .read key found))
      map := by
  have metaAgrees : MetaAgrees config.wyhash bucket content := by
    rw [← critical.locked.bucket, ← critical.locked.content]
    exact invariant.layout.metaAgrees bucketIdx
  apply Protocol.safe_bind
  apply Protocol.safe_mono (safe_peek_slots (bucket.candidates (config.hash key))
    (candidates_full metaAgrees _) critical pending)
  rintro found final ⟨answers, critical, pending⟩
  exact safe_commit_read answers critical pending

end Read

/-! ### Remove -/

theorem safe_remove_body {key : Bytes} (invariant : Invariant config exact map)
    (critical : Critical config thread (config.hash key).h1 bucketIdx bucket content none map)
    (pending : Pending thread map) :
    Safe config exact thread (removeBody key bucketIdx bucket)
      (fun found => Settled config thread (config.hash key).h1 bucketIdx (· = .remove key found))
      map := by
  have metaAgrees : MetaAgrees config.wyhash bucket content := by
    rw [← critical.locked.bucket, ← critical.locked.content]
    exact invariant.layout.metaAgrees bucketIdx
  apply Protocol.safe_bind
  apply Protocol.safe_mono (safe_find_slot pending_critical_stable (fun _ facts => facts.1.locked)
    key (bucket.candidates (config.hash key)) (candidates_full metaAgrees _) ⟨critical, pending⟩
    invariant)
  rintro found searched ⟨⟨critical, pending⟩, invariant, same⟩
  have sameSlot : found = slotOf content key := same.trans (candidates_find metaAgrees key)
  cases found with
  | none =>
      apply safe_commit critical pending
      · intro current invariant here
        have unbound := Layout.bindings_eq invariant.layout invariant.reflects here.home
        rw [here.locked.content, ← sameSlot] at unbound
        simpa [SyncEvent.Legal] using unbound
      · exact fun current here => by
          rw [Guards, here.home]
          exact here.locked.lock
      · exact fun _ => rfl
      · exact fun after critical committed => ⟨⟨_, _, critical⟩, _, rfl, committed⟩
  | some slot =>
      obtain ⟨old, held⟩ := slot_of_some sameSlot.symm
      apply Protocol.safe_bind
      apply Protocol.safe_mono (safe_release_slab slot invariant critical pending)
      rintro _ released ⟨_, moving, freed, critical, pending⟩
      apply safe_clear_slot freed held critical pending
      intro cleared critical committed
      apply safe_counter (fun before after rely facts => committed_stable rely facts)
        (fun _ _ _ facts => facts) .subCount _ critical committed
      · exact fun _ after _ critical committed => ⟨⟨_, _, critical⟩, _, rfl, committed⟩
      · intro current response after performed
        exact ⟨_, _, (Prod.mk.inj (Option.some.inj performed)).2.symm⟩

end SyncMap

end PulseMap
