import PulseMap.Sync.Encoding
import PulseMap.Sync.Queue

/-!
The critical sections of a thread that is alone on the map, without expiry. Each runs to its
end and does to the packed words and the stored pairs of its bucket what the call of the
table does; only the slab pool and the records are left open.
-/

namespace PulseMap

namespace SyncMap

open SyncProgram

variable {config : SyncConfig} {map : SyncMap} {thread : Nat}

/-! ### The candidate loops -/

section Candidates

variable {bucket : Bucket} {content : Content} {key : Bytes}

theorem find_slot_exec (free : map.slabHolder = none) (slots : List (Fin 4))
    (stored : ∀ slot ∈ slots, ∃ name text, content slot = some (name, text) ∧
      (bucket.slots slot).Stores config.wyhash map.layout.slabPool name text) :
    (findSlot bucket key (config.hash key) slots : SyncProgram config _).exec thread map =
      some (slots.find? fun slot => (content slot).map Prod.fst = some key, map) := by
  induction slots with
  | nil => rfl
  | cons slot rest induction =>
      obtain ⟨name, text, held, stores⟩ := stored slot (by simp)
      have compared : map.perform config thread
          (.matchesKey false (bucket.slots slot) key (config.hash key)) =
            some (some (decide (name = key)), map) := by
        have opened : map.slabOpen thread false = true := by simp [slabOpen, free]
        simp only [perform, opened, if_true]
        exact congrArg (fun answer => some (answer, map)) (Slot.stores_matches stores key)
      unfold findSlot
      rw [exec_atomic _ compared]
      by_cases same : name = key
      · rw [decide_eq_true same, List.find?_cons_of_pos (by simp [held, same])]
        rfl
      · rw [decide_eq_false same, List.find?_cons_of_neg (by simp [held, same])]
        exact induction fun other member => stored other (by simp [member])

theorem get_slot_exec (free : map.slabHolder = none) (slots : List (Fin 4))
    (stored : ∀ slot ∈ slots, ∃ name text, content slot = some (name, text) ∧
      (bucket.slots slot).Stores config.wyhash map.layout.slabPool name text) :
    (getSlot bucket key (config.hash key) slots : SyncProgram config _).exec thread map =
      some (slots.find? fun slot => (content slot).map Prod.fst = some key, map) := by
  induction slots with
  | nil => rfl
  | cons slot rest induction =>
      obtain ⟨name, text, held, stores⟩ := stored slot (by simp)
      unfold getSlot
      rw [exec_part _ (get_matches_exec thread stores free key)]
      by_cases same : name = key
      · rw [decide_eq_true same, List.find?_cons_of_pos (by simp [held, same])]
        rfl
      · rw [decide_eq_false same, List.find?_cons_of_neg (by simp [held, same])]
        exact induction fun other member => stored other (by simp [member])

end Candidates

/-! ### The writes -/

/-- The two maps differ in the slab pool and the records only. -/
def Booked (before after : SyncMap) : Prop :=
  ∃ pool transit history outcome, after = { before with
    layout := { before.layout with slabPool := pool }
    transit := transit
    history := history
    outcome := outcome }

theorem Booked.refl (map : SyncMap) : Booked map map := ⟨_, _, _, _, rfl⟩

theorem Booked.trans {first second third : SyncMap} (early : Booked first second)
    (late : Booked second third) : Booked first third := by
  obtain ⟨_, _, _, _, rfl⟩ := early
  obtain ⟨_, _, _, _, rfl⟩ := late
  exact ⟨_, _, _, _, rfl⟩

theorem Booked.same {before after : SyncMap} (booked : Booked before after) :
    after.slabHolder = before.slabHolder ∧ after.layout.numBuckets = before.layout.numBuckets ∧
      after.layout.buckets = before.layout.buckets := by
  obtain ⟨_, _, _, _, rfl⟩ := booked
  exact ⟨rfl, rfl, rfl⟩

theorem Booked.matches {before after : SyncMap} (booked : Booked before after) :
    Matches before after := by
  obtain ⟨_, _, _, _, rfl⟩ := booked
  rfl

def stamped (map : SyncMap) (bucketIdx : Nat) (slot : Fin 4) (ttl : Word) : SyncMap :=
  { map with
    layout := { map.layout with
      epochs := Function.update map.layout.epochs (bucketIdx * 4 + slot.val)
        ⟨map.currentEpoch, ttl⟩ } }

def rewritten (map : SyncMap) (bucketIdx : Nat) (slot : Fin 4) (bucket : Bucket)
    (entry : Option (Bytes × Bytes)) : SyncMap :=
  { map with layout := map.layout.rewrite bucketIdx slot bucket entry }

theorem booked_write {stored : SyncMap} (booked : Booked map stored) (thread bucketIdx : Nat)
    (slot : Fin 4) (bucket : Bucket) (entry : Option (Bytes × Bytes)) (event : SyncEvent) :
    Booked (map.rewritten bucketIdx slot bucket entry)
      (stored.writeSlot thread bucketIdx slot bucket entry event) := by
  obtain ⟨_, _, _, _, rfl⟩ := booked
  exact ⟨_, _, _, _, rfl⟩

theorem booked_stamp {stored : SyncMap} (booked : Booked map stored) (bucketIdx : Nat)
    (slot : Fin 4) (ttl : Word) :
    Booked (map.stamped bucketIdx slot ttl) (stored.stamped bucketIdx slot ttl) := by
  obtain ⟨_, _, _, _, rfl⟩ := booked
  exact ⟨_, _, _, _, rfl⟩

section Writes

variable {bucketIdx : Nat} {slot : Fin 4} {key value : Bytes}

/-- Before the bytes of a slot are rewritten it holds no slab index any more. -/
def Unowned (config : SyncConfig) (map : SyncMap) (position : Position) : Prop :=
  ∃ transit, map.layout.Invariant config transit ∧ Layout.Moves transit position.1 position.2 ∧
    map.layout.own transit position = none

theorem still_moves (bucketIdx : Nat) (slot : Fin 4) : Layout.Moves Layout.still bucketIdx slot := by
  intro moving held found
  cases found

theorem vacant_unowned (invariant : map.layout.Invariant config Layout.still)
    (vacated : map.layout.content bucketIdx slot = none) : Unowned config map (bucketIdx, slot) := by
  have bytes := invariant.slotAgrees bucketIdx slot (by simp [Layout.still])
  rw [SlotAgrees, vacated] at bytes
  refine ⟨_, invariant, still_moves bucketIdx slot, ?_⟩
  exact (Layout.own_slab_index invariant (by simp [Layout.still])).trans
    (Slot.slab_index_inline bytes)

theorem release_slab_exec (thread : Nat) (invariant : map.layout.Invariant config Layout.still)
    (free : map.slabHolder = none) (bucketIdx : Nat) (slot : Fin 4) :
    ∃ after, (releaseSlab bucketIdx slot ((map.layout.buckets bucketIdx).slots slot) :
        SyncProgram config Unit).exec thread map = some ((), after) ∧
      Booked map after ∧ Unowned config after (bucketIdx, slot) := by
  have moves := still_moves bucketIdx slot
  have own : map.layout.own Layout.still (bucketIdx, slot) =
      ((map.layout.buckets bucketIdx).slots slot).slabIndex :=
    Layout.own_slab_index invariant (by simp [Layout.still])
  unfold releaseSlab
  by_cases mode : ((map.layout.buckets bucketIdx).slots slot).getMode = 1#8
  · rw [Slot.slabIndex, if_pos mode] at own
    let idx := ((map.layout.buckets bucketIdx).slots slot).slabIdx
    have performed : map.perform config thread (.slabFree bucketIdx slot idx) = some ((),
        (map.setPool (map.layout.slabPool.free idx)).setTransit bucketIdx (some (slot, none))) := by
      simp [perform, slabOpen, free]
    rw [if_pos mode]
    refine ⟨_, Program.exec_act performed, ⟨_, _, _, _, rfl⟩, _,
      Layout.slab_free invariant moves own, ?_, ?_⟩
    · intro moving held found
      rw [Function.update_self] at found
      exact (Prod.mk.inj (Option.some.inj found)).1.symm
    · exact Layout.own_moving (Function.update_self ..)
  · rw [Slot.slabIndex, if_neg mode] at own
    rw [if_neg mode]
    exact ⟨map, rfl, Booked.refl map, _, invariant, moves, own⟩

theorem store_slot_exec (thread : Nat) (unowned : Unowned config map (bucketIdx, slot))
    (free : map.slabHolder = none) (inside : bucketIdx < map.layout.numBuckets)
    (small : key.length + value.length < 2 ^ 32) (old : Slot) :
    ∃ data after, (storePair bucketIdx slot old key value (config.hash key) :
        SyncProgram config Slot).exec thread map = some (data, after) ∧ Booked map after := by
  obtain ⟨transit, invariant, moves, idle⟩ := unowned
  unfold storePair
  split_ifs
  · exact ⟨_, map, rfl, Booked.refl map⟩
  · obtain ⟨idx, grown, _, allocated, _⟩ := Layout.slab_alloc invariant moves inside idle small
    let after : SyncMap := (map.setPool grown).setTransit bucketIdx (some (slot, some idx))
    have performed : map.perform config thread (.slabAlloc bucketIdx slot key value) =
        some (some idx, after) := by
      simp [perform, slabOpen, free, allocated, after]
    refine ⟨old.setSlab (config.hash key).extFpHi (config.hash key).extFp idx, after, ?_,
      ⟨_, _, _, _, rfl⟩⟩
    rw [exec_atomic _ performed]
    rfl

theorem update_in_place_exec (thread : Nat) (invariant : map.layout.Invariant config Layout.still)
    (free : map.slabHolder = none) (inside : bucketIdx < map.layout.numBuckets)
    (small : key.length + value.length < 2 ^ 32) (slot : Fin 4) (ttl : Word) :
    ∃ data left, (updateInPlace bucketIdx (map.layout.buckets bucketIdx) slot key value ttl :
        SyncProgram config Unit).exec thread map = some ((), left) ∧
      Booked ((map.rewritten bucketIdx slot ((map.layout.buckets bucketIdx).update slot data)
        (some (key, value))).stamped bucketIdx slot ttl) left := by
  obtain ⟨released, freed, first, unowned⟩ := release_slab_exec thread invariant free bucketIdx slot
  obtain ⟨holder, size, _⟩ := first.same
  obtain ⟨data, stored, wrote, second⟩ := store_slot_exec thread unowned (holder.trans free)
    (size.symm ▸ inside) small ((map.layout.buckets bucketIdx).slots slot)
  have booked := first.trans second
  let written : SyncMap := stored.writeSlot thread bucketIdx slot
    ((stored.layout.buckets bucketIdx).update slot data) (some (key, value)) (.insert key value none)
  refine ⟨data, written.stamped bucketIdx slot ttl, ?_, ?_⟩
  · unfold updateInPlace
    rw [exec_part _ freed, exec_part _ wrote]
    rfl
  · rw [← booked.same.2.2]
    exact booked_stamp (booked_write booked ..) bucketIdx slot ttl

def placed (map : SyncMap) (config : SyncConfig) (bucketIdx : Nat) (slot : Fin 4) (isEviction : Bool)
    (data : Slot) (key value : Bytes) (ttl : Word) : SyncMap :=
  { ((map.rewritten bucketIdx slot
      ((map.layout.buckets bucketIdx).place slot (config.hash key).h2 data)
      (some (key, value))).stamped bucketIdx slot ttl) with
    count := if isEviction then map.count else map.count + 1 }

theorem place_into_exec (thread : Nat) (unowned : Unowned config map (bucketIdx, slot))
    (free : map.slabHolder = none) (inside : bucketIdx < map.layout.numBuckets)
    (small : key.length + value.length < 2 ^ 32) (isEviction : Bool) (ttl : Word) :
    ∃ data left, (placeInto bucketIdx (map.layout.buckets bucketIdx) slot isEviction key value ttl :
        SyncProgram config Unit).exec thread map = some ((), left) ∧
      Booked (map.placed config bucketIdx slot isEviction data key value ttl) left := by
  obtain ⟨data, stored, wrote, booked⟩ := store_slot_exec thread unowned free inside small
    ((map.layout.buckets bucketIdx).slots slot)
  obtain ⟨_, _, _, _, rfl⟩ := booked
  unfold placeInto
  rw [exec_part _ wrote]
  cases isEviction with
  | true =>
      refine ⟨data, _, rfl, ?_⟩
      exact ⟨_, _, _, _, rfl⟩
  | false =>
      refine ⟨data, _, rfl, ?_⟩
      exact ⟨_, _, _, _, rfl⟩

end Writes

/-! ### The critical sections -/

theorem rewritten_table (map : SyncMap) (bucketIdx : Nat) (slot : Fin 4) (bucket : Bucket)
    (entry : Option (Bytes × Bytes)) :
    (map.rewritten bucketIdx slot bucket entry).table =
      ⟨Function.update map.table.views bucketIdx
        ⟨bucket.metaWord, Function.update (map.layout.content bucketIdx) slot entry⟩,
        map.evictionCount, map.currentEpoch⟩ := by
  simp only [table, rewritten, Layout.rewrite, Table.mk.injEq, and_true]
  funext other
  by_cases same : other = bucketIdx
  · simp [same]
  · simp [same]

theorem erased_timeless (timeless : map.Timeless) (bucketIdx : Nat) (slot : Fin 4) (bucket : Bucket) :
    (map.rewritten bucketIdx slot bucket none).Timeless := by
  refine ⟨timeless.default, ?_⟩
  intro other place present
  apply timeless.stamps other place
  simp only [rewritten, Layout.rewrite] at present
  by_cases same : other = bucketIdx
  · subst same
    by_cases here : place = slot
    · simp [here] at present
    · simpa [here] using present
  · simpa [same] using present

theorem written_timeless (timeless : map.Timeless) (bucketIdx : Nat) (slot : Fin 4) (bucket : Bucket)
    (entry : Option (Bytes × Bytes)) {ttl : Word} (unlimited : Unlimited ttl) :
    ((map.rewritten bucketIdx slot bucket entry).stamped bucketIdx slot ttl).Timeless := by
  refine ⟨timeless.default, ?_⟩
  intro other place present
  simp only [stamped, rewritten, Layout.rewrite] at present ⊢
  by_cases here : other * 4 + place.val = bucketIdx * 4 + slot.val
  · rw [here, Function.update_self]
    exact unlimited
  · rw [Function.update_of_ne here]
    apply timeless.stamps other place
    by_cases same : other = bucketIdx
    · subst same
      have different : place ≠ slot := by
        rintro rfl
        exact here rfl
      simpa [different] using present
    · simpa [same] using present

structure Inserts (config : SyncConfig) (map target : SyncMap) (key value : Bytes) (ttl : Word) :
    Prop where
  table : target.table =
    { map.table.put (map.home config) (fingerprint config) key value with epoch := map.currentEpoch }
  timeless : map.Timeless → Unlimited ttl → target.Timeless
  frame : ∃ layout count evictionCount, target = { map with
    layout := layout, count := count, evictionCount := evictionCount } ∧
      layout.numBuckets = map.layout.numBuckets ∧ layout.bucketMask = map.layout.bucketMask

section Insert

variable {key value : Bytes} {slot : Fin 4}

theorem inserts_update (found : map.table.seek (map.home config) key = some slot) (data : Slot)
    (ttl : Word) : Inserts config map ((map.rewritten (map.home config key) slot
      ((map.layout.buckets (map.home config key)).update slot data)
      (some (key, value))).stamped (map.home config key) slot ttl) key value ttl where
  table := by
    refine (rewritten_table map ..).trans ?_
    rw [Table.put, View.insert]
    simp only [Table.seek] at found
    rw [found]
    rfl
  timeless := fun timeless unlimited => written_timeless timeless _ _ _ _ unlimited
  frame := ⟨_, _, _, rfl, rfl, rfl⟩

theorem inserts_place (absent : map.table.seek (map.home config) key = none)
    (target : (map.table.views (map.home config key)).target = some slot) (isEviction : Bool)
    (full : (map.layout.content (map.home config key) slot).isSome = isEviction) (data : Slot)
    (ttl : Word) : Inserts config map ({ map with
      evictionCount := if isEviction then map.evictionCount + 1 else map.evictionCount }.placed config
        (map.home config key) slot isEviction data key value ttl) key value ttl where
  table := by
    refine (rewritten_table { map with
      evictionCount := if isEviction then map.evictionCount + 1 else map.evictionCount } ..).trans ?_
    simp only [Table.seek] at absent
    rw [Table.put, View.insert, absent]
    simp only [target]
    have evicted : ((map.table.views (map.home config key)).held slot).isSome = isEviction := full
    simp only [Table.absorb, evicted, Table.mk.injEq, and_true]
    refine ⟨rfl, ?_⟩
    cases isEviction <;> rfl
  timeless := by
    intro timeless unlimited
    exact ⟨timeless.default, (written_timeless timeless _ _ _ _ unlimited).stamps⟩
  frame := ⟨_, _, _, rfl, rfl, rfl⟩

theorem insert_body_exec (thread : Nat) (vacant : map.Vacant config)
    (small : key.length + value.length < 2 ^ 32) (ttl : Word) :
    ∃ target left, (insertBody key value ttl (map.home config key)
        (map.layout.buckets (map.home config key)) : SyncProgram config Unit).exec thread
          (map.inside thread (map.home config key)) = some ((), left) ∧
      Booked (target.inside thread (map.home config key)) left ∧
      Inserts config map target key value ttl := by
  let bucketIdx := map.home config key
  let bucket := map.layout.buckets bucketIdx
  let content := map.layout.content bucketIdx
  let within := map.inside thread bucketIdx
  have inside : bucketIdx < map.layout.numBuckets := Layout.index_lt vacant.layout _
  have layout : within.layout.Invariant config Layout.still := vacant.layout
  have unheld : within.slabHolder = none := vacant.slab
  have packed : MetaAgrees config.wyhash bucket content := vacant.layout.metaAgrees bucketIdx
  have searched : (findSlot bucket key (config.hash key) (bucket.candidates (config.hash key)) :
      SyncProgram config _).exec thread within = some (slotOf content key, within) := by
    rw [← candidates_find packed key]
    exact find_slot_exec unheld _ (candidates_stored vacant.layout bucketIdx key)
  unfold insertBody
  rw [exec_part _ searched]
  cases found : slotOf content key with
  | some slot =>
      obtain ⟨data, left, ran, booked⟩ :=
        update_in_place_exec thread layout unheld inside small slot ttl
      let target : SyncMap := (map.rewritten bucketIdx slot (bucket.update slot data)
        (some (key, value))).stamped bucketIdx slot ttl
      exact ⟨target, left, ran, booked, inserts_update found data ttl⟩
  | none =>
      cases free : bucket.metaWord.findFreeSlot with
      | some slot =>
          have vacated : map.layout.content bucketIdx slot = none := by
            by_contra held
            exact (MetaWord.find_free_slot_some free).1
              ((meta_full_iff packed slot).mpr (Option.isSome_iff_ne_none.mpr held))
          have unowned : Unowned config within (bucketIdx, slot) := vacant_unowned layout vacated
          obtain ⟨data, left, ran, booked⟩ :=
            place_into_exec thread unowned unheld inside small false ttl
          let target : SyncMap := { map with
            evictionCount := if false then map.evictionCount + 1 else map.evictionCount }.placed config
              bucketIdx slot false data key value ttl
          refine ⟨target, left, ran, booked, inserts_place found ?_ false ?_ data ttl⟩
          · rw [View.target]
            simp only [table]
            rw [free]
          · exact congrArg Option.isSome vacated
      | none =>
          have full := MetaWord.find_free_slot_none.mp free
          cases evict : bucket.metaWord.findEvictTarget with
          | none => exact absurd (full 0) (MetaWord.find_evict_target_none evict 0)
          | some slot =>
              obtain ⟨released, freed, first, unowned⟩ :=
                release_slab_exec thread layout unheld bucketIdx slot
              obtain ⟨holder, size, buckets⟩ := first.same
              let counted : SyncMap := { released with evictionCount := released.evictionCount + 1 }
              have added : released.perform config thread .addEvictionCount = some ((), counted) := rfl
              have counting : Unowned config counted (bucketIdx, slot) := unowned
              obtain ⟨data, left, ran, booked⟩ := place_into_exec thread counting
                (holder.trans unheld) (size.symm ▸ inside) small true ttl
              let target : SyncMap := { map with
                evictionCount := if true then map.evictionCount + 1 else map.evictionCount }.placed config
                  bucketIdx slot true data key value ttl
              refine ⟨target, left, ?_, ?_, inserts_place found ?_ true ?_ data ttl⟩
              · change (releaseSlab bucketIdx slot (bucket.slots slot) >>= fun _ =>
                  atomic .addEvictionCount >>= fun _ =>
                    placeInto bucketIdx bucket slot true key value ttl).exec thread within = _
                have emptied : (releaseSlab bucketIdx slot (bucket.slots slot) :
                    SyncProgram config Unit).exec thread within = some ((), released) := freed
                rw [exec_part _ emptied, exec_atomic _ added]
                have same : counted.layout.buckets bucketIdx = bucket := congrFun buckets bucketIdx
                rw [← same]
                exact ran
              · refine Booked.trans ?_ booked
                obtain ⟨_, _, _, _, rfl⟩ := first
                exact ⟨_, _, _, _, rfl⟩
              · rw [View.target]
                simp only [table]
                rw [free]
                exact evict
              · exact (meta_full_iff packed slot).mp (full slot)

end Insert

theorem get_value_exec {data : Slot} {key value : Bytes} (thread : Nat) (free : map.slabHolder = none)
    (stores : data.Stores config.wyhash map.layout.slabPool key value) :
    (getValue data : SyncProgram config _).exec thread map = some (some value, map) := by
  have read := Slot.stores_value stores
  unfold getValue
  by_cases mode : data.getMode = 0#8
  · rw [Slot.getValue, if_pos mode] at read
    rw [if_pos mode, Option.some.inj read]
    rfl
  · have performed : map.perform config thread (.slabValue false data) = some (some value, map) := by
      simp only [perform, slabOpen, free, Bool.false_eq_true, if_false, decide_true, if_true, read]
    rw [if_neg mode, exec_atomic _ performed]
    rfl

theorem get_body_exec (thread : Nat) (vacant : map.Vacant config) (timeless : map.Timeless)
    (key : Bytes) :
    ∃ left, (getBody key (map.home config key) (map.layout.buckets (map.home config key)) :
        SyncProgram config _).exec thread (map.inside thread (map.home config key)) =
          some ((map.table.views (map.home config key)).find key, left) ∧
      Matches (map.inside thread (map.home config key)) left ∧
      left.accessBuffer = match map.table.seek (map.home config) key with
        | some slot => (map.accessBuffer.push thread (accessOf (map.home config key, slot))).2
        | none => map.accessBuffer := by
  let bucketIdx := map.home config key
  let bucket := map.layout.buckets bucketIdx
  let content := map.layout.content bucketIdx
  let within := map.inside thread bucketIdx
  have unheld : within.slabHolder = none := vacant.slab
  have packed : MetaAgrees config.wyhash bucket content := vacant.layout.metaAgrees bucketIdx
  have searched : (getSlot bucket key (config.hash key) (bucket.candidates (config.hash key)) :
      SyncProgram config _).exec thread within = some (slotOf content key, within) := by
    rw [← candidates_find packed key]
    exact get_slot_exec unheld _ (candidates_stored vacant.layout bucketIdx key)
  have reads : ∀ found left, (getFound key bucketIdx bucket : SyncProgram config _).exec thread within =
      some (found, left) → (getBody key bucketIdx bucket : SyncProgram config _).exec thread within =
        some (found, left.record thread (.read key found)) := by
    intro found left ran
    exact exec_part (fun found => atomic (.commit (.read key found)) >>= fun _ => pure found) ran
  have seek : map.table.seek (map.home config) key = slotOf content key := rfl
  have find : (map.table.views bucketIdx).find key =
      (slotOf content key).bind fun slot => (content slot).map Prod.snd := rfl
  rw [seek, find]
  cases found : slotOf content key with
  | none =>
      have ran : (getFound key bucketIdx bucket : SyncProgram config _).exec thread within =
          some (none, within) := by
        unfold getFound
        rw [exec_part _ searched, found]
        rfl
      exact ⟨_, reads none within ran, matches_record within thread _, rfl⟩
  | some slot =>
      obtain ⟨value, held⟩ := slot_of_some found
      have present : map.layout.content bucketIdx slot = some (key, value) := held
      have stores := vacant.layout.slotAgrees bucketIdx slot (by simp [Layout.still])
      rw [SlotAgrees, present] at stores
      have live : (isExpired bucketIdx slot : SyncProgram config Bool).exec thread within =
          some (false, within) := by
        have fresh : (within.layout.epochs (bucketIdx * 4 + slot.val)).expired within.defaultTtl
            within.currentEpoch = false :=
          Raw.unlimited_live _ (timeless.stamps bucketIdx slot (by rw [present]; rfl))
            timeless.default _
        rw [is_expired_exec, fresh]
      obtain ⟨pushed, pushes, same, buffer⟩ := push_exec config thread bucketIdx slot within
      have stored : (bucket.slots slot).Stores config.wyhash pushed.layout.slabPool key value := by
        rw [same]
        exact stores
      have unlocked : pushed.slabHolder = none := by
        rw [same]
        exact unheld
      have ran : (getFound key bucketIdx bucket : SyncProgram config _).exec thread within =
          some (some value, pushed) := by
        unfold getFound
        rw [exec_part _ searched, found]
        change (isExpired bucketIdx slot >>= fun expired => if expired then pure none
          else push bucketIdx slot >>= fun _ => getValue (bucket.slots slot)).exec thread within = _
        rw [exec_part _ live]
        change (push bucketIdx slot >>= fun _ => getValue (bucket.slots slot)).exec thread within = _
        rw [exec_part _ pushes]
        exact get_value_exec thread unlocked stored
      refine ⟨_, ?_, same.matches.trans (matches_record pushed thread (.read key (some value))), buffer⟩
      rw [Option.bind_some, held]
      exact reads (some value) pushed ran

structure Removes (config : SyncConfig) (map target : SyncMap) (key : Bytes) : Prop where
  table : target.table = match map.table.seek (map.home config) key with
    | some slot => map.table.vacate (map.home config key, slot)
    | none => map.table
  timeless : map.Timeless → target.Timeless
  frame : ∃ layout count, target = { map with layout := layout, count := count } ∧
      layout.numBuckets = map.layout.numBuckets ∧ layout.bucketMask = map.layout.bucketMask

theorem remove_body_exec (thread : Nat) (vacant : map.Vacant config) (key : Bytes) :
    ∃ target left, (removeBody key (map.home config key)
        (map.layout.buckets (map.home config key)) : SyncProgram config Bool).exec thread
          (map.inside thread (map.home config key)) =
            some ((map.table.seek (map.home config) key).isSome, left) ∧
      Booked (target.inside thread (map.home config key)) left ∧ Removes config map target key := by
  let bucketIdx := map.home config key
  let bucket := map.layout.buckets bucketIdx
  let content := map.layout.content bucketIdx
  let within := map.inside thread bucketIdx
  have layout : within.layout.Invariant config Layout.still := vacant.layout
  have unheld : within.slabHolder = none := vacant.slab
  have packed : MetaAgrees config.wyhash bucket content := vacant.layout.metaAgrees bucketIdx
  have searched : (findSlot bucket key (config.hash key) (bucket.candidates (config.hash key)) :
      SyncProgram config _).exec thread within = some (slotOf content key, within) := by
    rw [← candidates_find packed key]
    exact find_slot_exec unheld _ (candidates_stored vacant.layout bucketIdx key)
  have seek : map.table.seek (map.home config) key = slotOf content key := rfl
  unfold removeBody
  rw [exec_part _ searched, seek]
  cases found : slotOf content key with
  | none =>
      refine ⟨map, _, rfl, ⟨_, _, _, _, rfl⟩, ?_, id, _, _, rfl, rfl, rfl⟩
      rw [seek, found]
  | some slot =>
      obtain ⟨released, freed, first, _⟩ := release_slab_exec thread layout unheld bucketIdx slot
      let target : SyncMap := { map.rewritten bucketIdx slot (bucket.tombstone slot) none with
        count := map.count - 1 }
      let cleared : SyncMap := released.writeSlot thread bucketIdx slot
        ((released.layout.buckets bucketIdx).tombstone slot) none (.remove key true)
      refine ⟨target, { cleared with count := cleared.count - 1 }, ?_, ?_, ?_, ?_, _, _, rfl, rfl, rfl⟩
      · change (releaseSlab bucketIdx slot (bucket.slots slot) >>= fun _ =>
          atomic (.clearSlot bucketIdx slot key) >>= fun _ =>
            atomic .subCount >>= fun _ => pure true).exec thread within = _
        have emptied : (releaseSlab bucketIdx slot (bucket.slots slot) :
            SyncProgram config Unit).exec thread within = some ((), released) := freed
        rw [exec_part _ emptied]
        rfl
      · obtain ⟨_, _, _, _, rfl⟩ := first
        exact ⟨_, _, _, _, rfl⟩
      · rw [seek, found]
        exact rewritten_table map bucketIdx slot (bucket.tombstone slot) none
      · intro timeless
        exact ⟨timeless.default,
          (erased_timeless timeless bucketIdx slot (bucket.tombstone slot)).stamps⟩

end SyncMap

end PulseMap
