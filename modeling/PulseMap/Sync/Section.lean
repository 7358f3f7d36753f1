import PulseMap.Sync.Facts

/-!
Inside the critical section of a bucket: the candidate loops find the slot of the key,
and the slab sections move one slot of the bucket from its old entry to the new one.
-/

namespace PulseMap

namespace SyncMap

open SyncProgram

variable {config : SyncConfig} {exact : Prop} {thread bucketIdx : Nat} {map : SyncMap}
  {bucket : Bucket} {content : Content} {moving : Option (Fin 4 × Option Nat)}

/-- A fact that the steps of the other threads do not disturb. -/
def Stable (thread : Nat) (Facts : SyncMap → Prop) : Prop :=
  ∀ before after, Rely thread before after → Facts before → Facts after

/-! ### Finding the slot -/

section Find

variable {Facts : SyncMap → Prop} (stable : Stable thread Facts)
  (locked : ∀ map, Facts map → Locked thread bucketIdx bucket content none map)
include stable locked

omit stable in
theorem locked_stores (current : SyncMap) (invariant : Invariant config exact current)
    (facts : Facts current) {slot : Fin 4} {name text : Bytes}
    (held : content slot = some (name, text)) :
    (bucket.slots slot).Stores config.wyhash current.layout.slabPool name text := by
  have here := locked current facts
  have agrees := invariant.layout.slotAgrees bucketIdx slot (by simp [here.transit])
  rw [here.bucket, here.content] at agrees
  simpa [SlotAgrees, held] using agrees

theorem safe_find_slot (key : Bytes) (slots : List (Fin 4))
    (full : ∀ slot ∈ slots, (content slot).isSome) (facts : Facts map)
    (invariant : Invariant config exact map) :
    Safe config exact thread (findSlot bucket key (config.hash key) slots)
      (fun found after => Facts after ∧ Invariant config exact after ∧
        found = slots.find? fun slot => (content slot).map Prod.fst = some key) map := by
  induction slots generalizing map with
  | nil => exact ⟨facts, invariant, rfl⟩
  | cons slot rest induction =>
      obtain ⟨⟨name, text⟩, held⟩ := Option.isSome_iff_exists.mp (full slot (by simp))
      apply safe_read
      · intro current response after performed
        simp only [perform] at performed
        split_ifs at performed
        exact (Prod.mk.inj (Option.some.inj performed)).2.symm
      · intro current response rely invariant performed
        have here := stable map current rely facts
        have stores := locked_stores locked current invariant here held
        have answer : response = some (decide (name = key)) := by
          simp only [perform] at performed
          split_ifs at performed
          rw [← Slot.stores_matches stores key]
          exact (Prod.mk.inj (Option.some.inj performed)).1.symm
        subst answer
        by_cases same : name = key
        · subst same
          simpa [orPanic, held] using ⟨here, invariant⟩
        · have rest := induction (fun other member => full other (by simp [member])) here invariant
          simpa [orPanic, same, held] using rest

theorem safe_get_matches (key : Bytes) {slot : Fin 4} {name text : Bytes}
    (held : content slot = some (name, text)) (facts : Facts map)
    (invariant : Invariant config exact map) :
    Safe config exact thread (getMatches (bucket.slots slot) key (config.hash key))
      (fun answer after => Facts after ∧ Invariant config exact after ∧
        answer = decide (name = key)) map := by
  have stores := locked_stores locked map invariant facts held
  unfold getMatches
  rcases stores with ⟨mode, sameKey, _⟩ | ⟨mode, high, low, entry, found, carries⟩
  · simp [mode, sameKey, facts, invariant, beq_eq_decide]
  · have slabMode : (bucket.slots slot).getMode ≠ 0#8 := by rw [mode]; decide
    simp only [slabMode, if_false, high, low]
    split_ifs with highDiffers lowDiffers
    · have different : name ≠ key := by
        rintro rfl
        exact highDiffers rfl
      simp [facts, invariant, different]
    · have different : name ≠ key := by
        rintro rfl
        exact lowDiffers rfl
      simp [facts, invariant, different]
    · apply safe_read
      · intro current response after performed
        simp only [perform] at performed
        split_ifs at performed
        exact (Prod.mk.inj (Option.some.inj performed)).2.symm
      · intro current response rely later performed
        have here := stable map current rely facts
        have stores := locked_stores locked current later here held
        have answer : response = some (decide (name = key)) := by
          simp only [perform] at performed
          split_ifs at performed
          rcases stores with ⟨otherMode, _⟩ | ⟨_, _, _, entry, found, carries⟩
          · exact absurd otherMode slabMode
          · rw [← (Prod.mk.inj (Option.some.inj performed)).1, found]
            simp [carries.1, beq_eq_decide]
        subst answer
        simp [orPanic, here, later]

theorem safe_get_slot (key : Bytes) (slots : List (Fin 4))
    (full : ∀ slot ∈ slots, (content slot).isSome) (facts : Facts map)
    (invariant : Invariant config exact map) :
    Safe config exact thread (getSlot bucket key (config.hash key) slots)
      (fun found after => Facts after ∧ Invariant config exact after ∧
        found = slots.find? fun slot => (content slot).map Prod.fst = some key) map := by
  induction slots generalizing map with
  | nil => exact ⟨facts, invariant, rfl⟩
  | cons slot rest induction =>
      obtain ⟨⟨name, text⟩, held⟩ := Option.isSome_iff_exists.mp (full slot (by simp))
      apply Protocol.safe_bind
      apply Protocol.safe_mono (safe_get_matches stable locked key held facts invariant)
      rintro answer after ⟨here, later, rfl⟩
      by_cases same : name = key
      · subst same
        simp [held, Protocol.Safe, here, later]
      · have rest := induction (fun other member => full other (by simp [member])) here later
        simpa [same, held] using rest

end Find

/-! ### Moving a slot -/

/-- The thread is in the critical section of the bucket that `h1` indexes. -/
structure Critical (config : SyncConfig) (thread : Nat) (h1 : Word) (bucketIdx : Nat) (bucket : Bucket)
    (content : Content) (moving : Option (Fin 4 × Option Nat)) (map : SyncMap) : Prop where
  locked : Locked thread bucketIdx bucket content moving map
  home : config.bucketIndex h1 map.layout.bucketMask = bucketIdx
  slab : map.slabHolder ≠ some thread
  quiet : Quiet thread map

variable {h1 : Word}

theorem critical_stable :
    Stable thread (Critical config thread h1 bucketIdx bucket content moving) := by
  intro before after rely facts
  exact
    { locked := locked_stable rely facts.locked
      home := by
        rw [(rely.layout facts.locked.reading).2]
        exact facts.home
      slab := fun held => facts.slab (rely.slab.mp held)
      quiet := quiet_stable rely facts.quiet }

def Freed (slot : Fin 4) (bucket : Bucket) (moving : Option (Fin 4 × Option Nat)) : Prop :=
  moving = some (slot, none) ∨ (moving = none ∧ (bucket.slots slot).slabIndex = none)

theorem freed_moves {slot : Fin 4} (freed : Freed slot bucket moving)
    (locked : Locked thread bucketIdx bucket content moving map) :
    Layout.Moves map.transit bucketIdx slot := by
  intro place held found
  rw [locked.transit] at found
  rcases freed with rfl | ⟨rfl, _⟩
  · exact (Prod.mk.inj (Option.some.inj found)).1.symm
  · simp at found

theorem freed_own {slot : Fin 4} (freed : Freed slot bucket moving)
    (locked : Locked thread bucketIdx bucket content moving map)
    (invariant : Invariant config exact map) :
    map.layout.own map.transit (bucketIdx, slot) = none := by
  rcases freed with rfl | ⟨rfl, index⟩
  · exact Layout.own_moving locked.transit
  · rw [Layout.own_slab_index invariant.layout (by simp [locked.transit]), locked.bucket, index]

theorem guarantee_moving {slot : Fin 4} {held : Option Nat}
    (critical : Critical config thread h1 bucketIdx bucket content moving map)
    (invariant : Invariant config exact map) (pool : SlabPool)
    (kept : ∀ (position : Position) idx, position.1 ≠ bucketIdx →
      map.layout.own map.transit position = some idx →
      pool.get idx = map.layout.slabPool.get idx)
    (layout : Layout.Invariant config (Function.update map.transit bucketIdx (some (slot, held)))
      { map.layout with slabPool := pool }) :
    Guarantee config exact thread map
        ((map.setPool pool).setTransit bucketIdx (some (slot, held))) ∧
      Critical config thread h1 bucketIdx bucket content (some (slot, held))
        ((map.setPool pool).setTransit bucketIdx (some (slot, held))) := by
  constructor
  · apply guarantee_bucket invariant critical.locked.lock
    · exact ⟨rfl, rfl⟩
    · intro other different
      exact ⟨rfl, rfl, Function.update_of_ne different _ _, fun _ => rfl⟩
    · exact kept
    · exact layout
    · exact List.prefix_refl _
    · exact fun _ _ => rfl
    · exact invariant.reflects
    · exact
        have recorded := invariant.recorded
        ⟨recorded.legal, recorded.numbered, recorded.pending, recorded.once, recorded.answered⟩
    · exact keeps_content rfl
    · exact Or.inl rfl
  · exact
      { locked :=
          { reading := critical.locked.reading
            lock := critical.locked.lock
            bucket := critical.locked.bucket
            content := critical.locked.content
            transit := Function.update_self .. }
        home := critical.home
        slab := critical.slab
        quiet := critical.quiet }

/-- `releaseSlab` frees the entry of a slot, if it has one, exactly once. -/
theorem safe_release_slab (slot : Fin 4) (invariant : Invariant config exact map)
    (critical : Critical config thread h1 bucketIdx bucket content none map)
    (pending : Pending thread map) :
    Safe config exact thread (releaseSlab bucketIdx slot (bucket.slots slot))
      (fun _ after => Invariant config exact after ∧ ∃ moving, Freed slot bucket moving ∧
        Critical config thread h1 bucketIdx bucket content moving after ∧ Pending thread after) map := by
  unfold releaseSlab
  split_ifs with mode
  · apply safe_atomic _ Program.done
    intro current response after rely invariant _ performed
    have here := critical_stable map current rely critical
    have index : current.layout.own current.transit (bucketIdx, slot) =
        some (bucket.slots slot).slabIdx := by
      rw [Layout.own_slab_index invariant.layout (by simp [here.locked.transit]),
        here.locked.bucket]
      simp [Slot.slabIndex, mode]
    have moves : Layout.Moves current.transit bucketIdx slot := by
      simp [Layout.Moves, here.locked.transit]
    simp only [perform] at performed
    split_ifs at performed
    obtain rfl := (Prod.mk.inj (Option.some.inj performed)).2
    obtain ⟨guarantee, after⟩ := guarantee_moving here invariant
      (current.layout.slabPool.free (bucket.slots slot).slabIdx) (fun _ _ _ _ => rfl)
      (Layout.slab_free invariant.layout moves index)
    have still : Pending thread current := pending_stable rely pending
    exact ⟨guarantee, guarantee.invariant, _, Or.inl rfl, after, still⟩
  · have index : (bucket.slots slot).slabIndex = none := by simp [Slot.slabIndex, mode]
    exact ⟨invariant, none, Or.inr ⟨rfl, index⟩, critical, pending⟩

/-- The bytes about to be written hold the new pair, and the account already counts
the entry they name. -/
structure Ready (config : SyncConfig) (bucketIdx : Nat) (slot : Fin 4) (key value : Bytes) (data : Slot)
    (map : SyncMap) : Prop where
  moves : Layout.Moves map.transit bucketIdx slot
  stores : data.Stores config.wyhash map.layout.slabPool key value
  account : map.layout.own map.transit (bucketIdx, slot) = data.slabIndex

theorem ready_stable {before after : SyncMap} {slot : Fin 4} {key value : Bytes} {data : Slot}
    (rely : Rely thread before after) (lock : before.locks bucketIdx = some thread)
    (ready : Ready config bucketIdx slot key value data before) :
    Ready config bucketIdx slot key value data after where
  moves := by
    intro place held found
    rw [(rely.bucket bucketIdx lock).2.2.1] at found
    exact ready.moves place held found
  stores := by
    apply Slot.stores_stable ready.stores
    intro idx index
    exact rely.entries bucketIdx slot idx lock (ready.account.trans index)
  account := (rely.own lock slot).trans ready.account

theorem safe_store_pair {slot : Fin 4} {key value : Bytes}
    (small : key.length + value.length < 2 ^ 32) (freed : Freed slot bucket moving)
    (critical : Critical config thread h1 bucketIdx bucket content moving map)
    (invariant : Invariant config exact map) (pending : Pending thread map) (old : Slot) :
    Safe config exact thread (storePair bucketIdx slot old key value (config.hash key))
      (fun data after => ∃ moving,
        Critical config thread h1 bucketIdx bucket content moving after ∧
        Ready config bucketIdx slot key value data after ∧ Pending thread after) map := by
  unfold storePair
  split_ifs with fits
  · refine ⟨moving, critical, ⟨freed_moves freed critical.locked,
      Slot.set_inline_stores old _ fits, ?_⟩, pending⟩
    rw [freed_own freed critical.locked invariant, Slot.slab_index_set_inline old fits]
  · apply safe_atomic
    intro current response after rely invariant _ performed
    have here := critical_stable map current rely critical
    obtain ⟨idx, grown, entry, allocated, layout, found, carries, indexSmall, kept⟩ :=
      Layout.slab_alloc invariant.layout (freed_moves freed here.locked)
        (invariant.locked bucketIdx thread here.locked.lock).2
        (freed_own freed here.locked invariant) small
    simp only [perform, allocated] at performed
    split_ifs at performed
    obtain ⟨rfl, rfl⟩ := Prod.mk.inj (Option.some.inj performed)
    obtain ⟨guarantee, after⟩ := guarantee_moving here invariant grown
      (fun position kept' _ => kept position kept') layout
    obtain ⟨stores, index⟩ := Layout.set_slab_ready config old found carries indexSmall
    have still : Pending thread current := pending_stable rely pending
    refine ⟨guarantee, ?_⟩
    simp only [orPanic, Program.done_bind, Program.pure_eq, safe_done]
    refine ⟨_, after, ⟨?_, stores, ?_⟩, still⟩
    · intro place held moved
      rw [after.locked.transit] at moved
      exact (Prod.mk.inj (Option.some.inj moved)).1.symm
    · rw [index]
      exact Layout.own_moving after.locked.transit

/-! ### Writing the slot -/

/-- The slot is rewritten, the transition ends and the call's event is committed. -/
theorem guarantee_write {slot : Fin 4} {written : Bucket} {entry : Option (Bytes × Bytes)}
    (event : SyncEvent)
    (critical : Critical config thread h1 bucketIdx bucket content moving map)
    (invariant : Invariant config exact map) (pending : Pending thread map)
    (layout : Layout.Invariant config (Function.update map.transit bucketIdx none)
      (map.layout.rewrite bucketIdx slot written entry))
    (legal : event.Legal (bindings map.history))
    (reflects : (map.layout.rewrite bucketIdx slot written entry).Reflects
      (map.history ++ [⟨thread, map.calls thread, event⟩]))
    (ends : ∀ name text, map.layout.content bucketIdx slot = some (name, text) →
      (∃ other, entry = some (name, other)) ∨ Ends config thread (bucketIdx, slot) name map
        (map.writeSlot thread bucketIdx slot written entry event))
    (guards : Guards config thread map event) :
    Guarantee config exact thread map (map.writeSlot thread bucketIdx slot written entry event) ∧
      Critical config thread h1 bucketIdx written (Function.update content slot entry) none
        (map.writeSlot thread bucketIdx slot written entry event) ∧
      Committed thread event (map.writeSlot thread bucketIdx slot written entry event) := by
  have recorded := recorded_event invariant.recorded pending legal
  refine ⟨?_, ?_, ?_⟩
  · apply guarantee_bucket invariant critical.locked.lock
    · exact ⟨rfl, rfl⟩
    · intro other different
      exact ⟨Function.update_of_ne different _ _, Function.update_of_ne different _ _,
        Function.update_of_ne different _ _, fun _ => rfl⟩
    · exact fun _ _ _ _ => rfl
    · exact layout
    · exact List.prefix_append _ _
    · exact fun other different => Function.update_of_ne different _ _
    · exact reflects
    · exact ⟨recorded.legal, recorded.numbered, recorded.pending, recorded.once, recorded.answered⟩
    · intro position key value held
      by_cases moved : position = (bucketIdx, slot)
      · subst moved
        rcases ends key value held with ⟨other, same⟩ | ended
        · exact Or.inl ⟨(bucketIdx, slot), other, by
            rw [Layout.rewrite_content, if_pos rfl]
            exact same⟩
        · exact Or.inr ended
      · exact Or.inl ⟨position, value, by
          rw [Layout.rewrite_content, if_neg moved]
          exact held⟩
    · exact Or.inr ⟨event, guards, rfl⟩
  · exact
      { locked :=
          { reading := critical.locked.reading
            lock := critical.locked.lock
            bucket := Function.update_self ..
            content := by
              rw [← critical.locked.content]
              exact Function.update_self ..
            transit := Function.update_self .. }
        home := critical.home
        slab := critical.slab
        quiet := critical.quiet }
  · exact List.mem_append_right _ (List.mem_singleton.mpr rfl)

theorem home_locked {slot : Fin 4} {key value : Bytes} (invariant : Invariant config exact map)
    (lock : map.locks bucketIdx = some thread)
    (held : map.layout.content bucketIdx slot = some (key, value)) :
    map.locks (config.bucketIndex (config.hash key).h1 map.layout.bucketMask) = some thread := by
  rw [invariant.layout.home bucketIdx slot key value held]
  exact lock

section Write

variable {slot : Fin 4} {key value : Bytes} {data : Slot} {Result : Type}
  {post : Result → SyncMap → Prop}

theorem safe_update_slot (small : key.length + value.length < 2 ^ 32) {old : Bytes}
    (held : content slot = some (key, old))
    (critical : Critical config thread h1 bucketIdx bucket content moving map)
    (ready : Ready config bucketIdx slot key value data map) (pending : Pending thread map)
    (next : Unit → SyncProgram config Result)
    (continues : ∀ after,
      Critical config thread h1 bucketIdx (bucket.update slot data)
        (Function.update content slot (some (key, value))) none after →
      Committed thread (.insert key value none) after →
      Safe config exact thread (next ()) post after) :
    Safe config exact thread (atomic (.updateSlot bucketIdx slot data key value) >>= next) post map := by
  apply safe_atomic
  intro current response after rely invariant _ performed
  have here := critical_stable map current rely critical
  have readyHere := ready_stable rely critical.locked.lock ready
  have heldHere : current.layout.content bucketIdx slot = some (key, old) := by
    rw [here.locked.content]
    exact held
  have sameBucket := here.locked.bucket
  have written := guarantee_write (.insert key value none) here invariant
    (pending_stable rely pending)
    (Layout.write_update invariant.layout readyHere.moves small heldHere readyHere.stores
      readyHere.account) trivial
    (Layout.reflects_update invariant.layout invariant.reflects heldHere) (by
      intro name text here
      rw [heldHere] at here
      obtain ⟨rfl, _⟩ := Prod.mk.inj (Option.some.inj here)
      exact Or.inl ⟨value, rfl⟩)
    (home_locked invariant here.locked.lock heldHere)
  simp only [perform] at performed
  obtain rfl := (Prod.mk.inj (Option.some.inj performed)).2
  rw [sameBucket] at written
  rw [sameBucket]
  exact ⟨written.1, continues _ written.2.1 written.2.2⟩

theorem safe_place_slot (small : key.length + value.length < 2 ^ 32)
    (sameHash : h1 = (config.hash key).h1)
    (absent : slotOf content key = none)
    (chosen : content slot ≠ none → ∀ other, bucket.metaWord.getState other = .full ∧
      bucket.metaWord.getPriority slot ≤ bucket.metaWord.getPriority other)
    (critical : Critical config thread h1 bucketIdx bucket content moving map)
    (ready : Ready config bucketIdx slot key value data map) (pending : Pending thread map)
    (next : Unit → SyncProgram config Result)
    (continues : ∀ after,
      Critical config thread h1 bucketIdx (bucket.place slot (config.hash key).h2 data)
        (Function.update content slot (some (key, value))) none after →
      Committed thread (.insert key value ((content slot).map Prod.fst)) after →
      Safe config exact thread (next ()) post after) :
    Safe config exact thread
      (atomic (.placeSlot bucketIdx slot (config.hash key).h2 data key value) >>= next) post map := by
  subst sameHash
  apply safe_atomic
  intro current response after rely invariant _ performed
  have here := critical_stable map current rely critical
  have readyHere := ready_stable rely critical.locked.lock ready
  have unbound := Layout.bindings_eq invariant.layout invariant.reflects here.home
  rw [here.locked.content, absent] at unbound
  have absentHere : ∀ other text, current.layout.content bucketIdx other ≠ some (key, text) := by
    rw [here.locked.content]
    exact slot_of_none absent
  have absentAnywhere : ∀ (position : Position) text,
      current.layout.content position.1 position.2 ≠ some (key, text) := by
    intro position text held
    have bound := (invariant.reflects key text).mp ⟨position, held⟩
    rw [unbound] at bound
    simp at bound
  have legal : SyncEvent.Legal (bindings current.history)
      (.insert key value ((current.layout.content bucketIdx slot).map Prod.fst)) := by
    cases held : current.layout.content bucketIdx slot with
    | none => trivial
    | some pair =>
        refine ⟨?_, ?_, by simpa using unbound⟩
        · rintro rfl
          exact absentHere slot pair.2 held
        · have bound := (invariant.reflects pair.1 pair.2).mp ⟨(bucketIdx, slot), held⟩
          simp [bound]
  have written := guarantee_write _ here invariant (pending_stable rely pending)
    (Layout.write_place invariant.layout readyHere.moves small absentHere here.home readyHere.stores
      readyHere.account) legal
    (Layout.reflects_place invariant.layout invariant.reflects absentAnywhere) (by
      intro name text held
      refine Or.inr ⟨here.locked.lock, Or.inr ⟨key, value, ?_, here.home, ?_, ?_⟩⟩
      · rintro rfl
        exact absentHere slot text held
      · simp [writeSlot, held]
      · rw [here.locked.bucket]
        apply chosen
        rw [← here.locked.content, held]
        simp)
    (by rw [Guards, here.home]; exact here.locked.lock)
  simp only [perform] at performed
  obtain rfl := (Prod.mk.inj (Option.some.inj performed)).2
  rw [here.locked.bucket, here.locked.content] at written
  rw [here.locked.bucket, here.locked.content]
  exact ⟨written.1, continues _ written.2.1 written.2.2⟩

theorem safe_clear_slot (freed : Freed slot bucket moving) {old : Bytes}
    (held : content slot = some (key, old))
    (critical : Critical config thread h1 bucketIdx bucket content moving map)
    (pending : Pending thread map) (next : Unit → SyncProgram config Result)
    (continues : ∀ after,
      Critical config thread h1 bucketIdx (bucket.tombstone slot)
        (Function.update content slot none) none after →
      Committed thread (.remove key true) after → Safe config exact thread (next ()) post after) :
    Safe config exact thread (atomic (.clearSlot bucketIdx slot key) >>= next) post map := by
  apply safe_atomic
  intro current response after rely invariant _ performed
  have here := critical_stable map current rely critical
  have heldHere : current.layout.content bucketIdx slot = some (key, old) := by
    rw [here.locked.content]
    exact held
  have bound := (invariant.reflects key old).mp ⟨(bucketIdx, slot), heldHere⟩
  have written := guarantee_write (.remove key true) here invariant (pending_stable rely pending)
    (Layout.write_tombstone invariant.layout (freed_moves freed here.locked)
      (freed_own freed here.locked invariant)) (by simp [SyncEvent.Legal, bound])
    (Layout.reflects_erase invariant.layout invariant.reflects heldHere) (by
      intro name text held
      rw [heldHere] at held
      obtain ⟨rfl, _⟩ := Prod.mk.inj (Option.some.inj held)
      exact Or.inr ⟨here.locked.lock, Or.inl rfl⟩)
    (home_locked invariant here.locked.lock heldHere)
  simp only [perform] at performed
  obtain rfl := (Prod.mk.inj (Option.some.inj performed)).2
  rw [here.locked.bucket] at written
  rw [here.locked.bucket]
  exact ⟨written.1, continues _ written.2.1 written.2.2⟩

end Write

end SyncMap

end PulseMap
