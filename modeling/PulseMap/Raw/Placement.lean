import PulseMap.Raw.Cache

/-!
Which slot an insert overwrites. A new key takes the first slot of its bucket that is
not Full or is expired, else the first slot of minimum priority; a stored key is
rewritten where it is. Nothing else of the map moves.
-/

namespace PulseMap.Raw

variable {wyhash : Bytes → Word} {map : PulseMapRaw} {content : Nat → Content}

/-- The slot can be taken without losing a live entry. -/
def Reusable (map : PulseMapRaw) (bucket : Nat) (slot : Fin 4) : Prop :=
  (map.buckets bucket).metaWord.getState slot ≠ .full ∨ map.isExpired bucket slot = true

instance (map : PulseMapRaw) (bucket : Nat) (slot : Fin 4) : Decidable (Reusable map bucket slot) :=
  inferInstanceAs (Decidable (_ ∨ _))

def priorityAt (map : PulseMapRaw) (bucket : Nat) (slot : Fin 4) : Byte :=
  (map.buckets bucket).metaWord.getPriority slot

/-- The slot named by the policy, on the map with the epoch already incremented. -/
def PolicyTarget (map : PulseMapRaw) (bucket : Nat) (slot : Fin 4) : Prop :=
  (Reusable map bucket slot ∧ ∀ earlier < slot, ¬Reusable map bucket earlier) ∨
    (∀ other, ¬Reusable map bucket other) ∧
      ∀ other, priorityAt map bucket slot ≤ priorityAt map bucket other ∧
        (other < slot → priorityAt map bucket slot < priorityAt map bucket other)

/-- The slot is as it was: state, fingerprint, bytes, decoded pair and stamp. -/
structure SlotKept (map next : PulseMapRaw) (bucket : Nat) (slot : Fin 4) : Prop where
  state : (next.buckets bucket).metaWord.getState slot = (map.buckets bucket).metaWord.getState slot
  fingerprint : (next.buckets bucket).metaWord.getH2 slot = (map.buckets bucket).metaWord.getH2 slot
  bytes : (next.buckets bucket).slots slot = (map.buckets bucket).slots slot
  entry : next.slotEntry bucket slot = map.slotEntry bucket slot
  stamp : next.ttlAt bucket slot = map.ttlAt bucket slot

theorem find_free_or_expired_some {bucket : Nat} {slot : Fin 4}
    (found : map.findFreeOrExpired bucket = some slot) :
    Reusable map bucket slot ∧ ∀ earlier < slot, ¬Reusable map bucket earlier := by
  obtain ⟨reusable, index, bound, here, before⟩ := List.find?_eq_some_iff_getElem.mp found
  rw [List.getElem_finRange] at here
  have position : index = slot.val := by simpa using congrArg Fin.val here
  refine ⟨of_decide_eq_true reusable, ?_⟩
  intro earlier less
  have passed := before earlier.val (by omega)
  simpa [Reusable] using passed

theorem find_free_or_expired_none {bucket : Nat} (missing : map.findFreeOrExpired bucket = none)
    (slot : Fin 4) : ¬Reusable map bucket slot := by
  have busy := List.find?_eq_none.mp missing slot (List.mem_finRange slot)
  exact fun reusable => busy (decide_eq_true reusable)

theorem choose_target_policy {bucket : Nat} {slot : Fin 4} {isEviction : Bool}
    (target : map.chooseTarget bucket = some (slot, isEviction)) : PolicyTarget map bucket slot := by
  unfold PulseMapRaw.chooseTarget at target
  cases free : map.findFreeOrExpired bucket with
  | some first =>
      simp only [free, Option.some.injEq, Prod.mk.injEq] at target
      rw [← target.1]
      exact Or.inl (find_free_or_expired_some free)
  | none =>
      simp only [free, Option.map_eq_some_iff, Prod.mk.injEq] at target
      obtain ⟨evict, found, same, _⟩ := target
      rw [← same]
      have busy := find_free_or_expired_none free
      have minimal := (MetaWord.find_evict_target_some found).2
      refine Or.inr ⟨busy, fun other => minimal other ?_⟩
      by_contra notFull
      exact busy other (Or.inl notFull)

theorem slot_kept_of (before : Invariant wyhash map content) {next : PulseMapRaw}
    {after : Nat → Content} (kept : Invariant wyhash next after) {bucket : Nat} {slot : Fin 4}
    (state : (next.buckets bucket).metaWord.getState slot =
      (map.buckets bucket).metaWord.getState slot)
    (fingerprint : (next.buckets bucket).metaWord.getH2 slot =
      (map.buckets bucket).metaWord.getH2 slot)
    (bytes : (next.buckets bucket).slots slot = (map.buckets bucket).slots slot)
    (same : after bucket slot = content bucket slot)
    (stamp : next.ttlAt bucket slot = map.ttlAt bucket slot) : SlotKept map next bucket slot := by
  refine ⟨state, fingerprint, bytes, ?_, stamp⟩
  rw [slot_entry_eq before, slot_entry_eq kept, same]
  simp only [stamped, stamp]

theorem after_place_kept (before : Invariant wyhash map content) {slot : Fin 4}
    {isEviction : Bool} {key value : Bytes} {ttl : Word} {data : Slot} {pool : SlabPool}
    (kept : Invariant wyhash (afterPlace wyhash map.tick slot isEviction key ttl data pool)
      (writeAt content (map.bucketOf wyhash key) slot (some (key, value))))
    (other : Nat) (place : Fin 4) (apart : (other, place) ≠ (map.bucketOf wyhash key, slot)) :
    SlotKept map (afterPlace wyhash map.tick slot isEviction key ttl data pool) other place ∧
      priorityAt (afterPlace wyhash map.tick slot isEviction key ttl data pool) other place =
        priorityAt map other place := by
  have elsewhere : ¬(other = map.bucketOf wyhash key ∧ place = slot) := by
    intro here
    exact apart (Prod.ext here.1 here.2)
  have stamp : (afterPlace wyhash map.tick slot isEviction key ttl data pool).ttlAt other place =
      map.ttlAt other place :=
    (stamp_at _ (map.bucketOf wyhash key) other slot place ttl).trans (if_neg elsewhere)
  have sameContent : writeAt content (map.bucketOf wyhash key) slot (some (key, value)) other place =
      content other place := by
    rw [write_at_apply, if_neg elsewhere]
  have written : (afterPlace wyhash map.tick slot isEviction key ttl data pool).buckets other =
      if other = map.bucketOf wyhash key then
        (map.buckets (map.bucketOf wyhash key)).place slot (computeHash wyhash key).h2 data
      else map.buckets other :=
    after_place_bucket wyhash map.tick slot isEviction key ttl data pool other
  by_cases same : other = map.bucketOf wyhash key
  · have different : place ≠ slot := fun samePlace => elsewhere ⟨same, samePlace⟩
    subst same
    rw [if_pos rfl] at written
    refine ⟨slot_kept_of before kept ?_ ?_ ?_ sameContent stamp, ?_⟩
    all_goals
      simp only [priorityAt, written]
      simp [Bucket.place, different]
  · rw [if_neg same] at written
    refine ⟨slot_kept_of before kept ?_ ?_ ?_ sameContent stamp, ?_⟩
    all_goals simp only [priorityAt, written]

theorem after_update_kept (before : Invariant wyhash map content) {slot : Fin 4}
    {key value : Bytes} {ttl : Word} {data : Slot} {pool : SlabPool}
    (kept : Invariant wyhash (afterUpdate wyhash map.tick slot key ttl data pool)
      (writeAt content (map.bucketOf wyhash key) slot (some (key, value))))
    (other : Nat) (place : Fin 4) (apart : (other, place) ≠ (map.bucketOf wyhash key, slot)) :
    SlotKept map (afterUpdate wyhash map.tick slot key ttl data pool) other place := by
  have elsewhere : ¬(other = map.bucketOf wyhash key ∧ place = slot) := by
    intro here
    exact apart (Prod.ext here.1 here.2)
  have stamp : (afterUpdate wyhash map.tick slot key ttl data pool).ttlAt other place =
      map.ttlAt other place :=
    (stamp_at _ (map.bucketOf wyhash key) other slot place ttl).trans (if_neg elsewhere)
  have sameContent : writeAt content (map.bucketOf wyhash key) slot (some (key, value)) other place =
      content other place := by
    rw [write_at_apply, if_neg elsewhere]
  have written : (afterUpdate wyhash map.tick slot key ttl data pool).buckets other =
      if other = map.bucketOf wyhash key then
        (map.buckets (map.bucketOf wyhash key)).update slot data
      else map.buckets other :=
    after_update_bucket wyhash map.tick slot key ttl data pool other
  by_cases same : other = map.bucketOf wyhash key
  · have different : place ≠ slot := fun samePlace => elsewhere ⟨same, samePlace⟩
    subst same
    rw [if_pos rfl] at written
    apply slot_kept_of before kept _ _ _ sameContent stamp
    all_goals
      simp only [written]
      simp [Bucket.update, different]
  · rw [if_neg same] at written
    apply slot_kept_of before kept _ _ _ sameContent stamp
    all_goals simp only [written]

/-- What the insert of a key that is not stored does, with `slot` the slot it overwrites. -/
structure Places (wyhash : Bytes → Word) (map next : PulseMapRaw) (key value : Bytes) (ttl : Word)
    (slot : Fin 4) : Prop where
  policy : PolicyTarget map.tick (map.bucketOf wyhash key) slot
  written : next.slotEntry (map.bucketOf wyhash key) slot =
    some (key, ⟨value, map.currentEpoch + 1, ttl⟩)
  priority : priorityAt next (map.bucketOf wyhash key) slot = 0x01#8
  others : ∀ other place, (other, place) ≠ (map.bucketOf wyhash key, slot) →
    SlotKept map next other place ∧ priorityAt next other place = priorityAt map other place
  evictions : next.evictionCount = map.evictionCount +
    if (map.buckets (map.bucketOf wyhash key)).metaWord.getState slot = .full then 1 else 0
  /-- A live entry that is gone was in a bucket of live entries and had minimum priority. -/
  lost : ∀ bucket place name entry, map.slotEntry bucket place = some (name, entry) →
    map.tick.isExpired bucket place = false → next.cache.entries name ≠ some entry →
    bucket = map.bucketOf wyhash key ∧ place = slot ∧
      ∀ other, (map.buckets bucket).metaWord.getState other = .full ∧
        map.tick.isExpired bucket other = false ∧
        priorityAt map bucket place ≤ priorityAt map bucket other

/-- What the insert of a stored key does: no other entry changes, and no counter. -/
structure Rewrites (wyhash : Bytes → Word) (map next : PulseMapRaw) (key value : Bytes)
    (ttl : Word) (slot : Fin 4) : Prop where
  written : next.slotEntry (map.bucketOf wyhash key) slot =
    some (key, ⟨value, map.currentEpoch + 1, ttl⟩)
  others : ∀ other place, (other, place) ≠ (map.bucketOf wyhash key, slot) →
    SlotKept map next other place
  entries : ∀ name, name ≠ key → next.cache.entries name = map.cache.entries name
  len : next.len = map.len
  evictions : next.evictionCount = map.evictionCount

theorem written_entry {next : PulseMapRaw} {key value : Bytes} {bucket : Nat} {slot : Fin 4}
    {stamp : SlotTTL} (kept : Invariant wyhash next (writeAt content bucket slot (some (key, value))))
    (stamps : next.ttlAt bucket slot = stamp) :
    next.slotEntry bucket slot = some (key, ⟨value, stamp.epoch, stamp.ttl⟩) := by
  rw [slot_entry_eq kept]
  simp [stamped, stamps]

theorem entries_of_kept {next : PulseMapRaw} {after : Nat → Content}
    (kept : Invariant wyhash next after) {bucket : Nat} {slot : Fin 4} {name : Bytes}
    {entry : CacheEntry} (held : map.slotEntry bucket slot = some (name, entry))
    (same : SlotKept map next bucket slot) : next.cache.entries name = some entry := by
  rw [← same.entry, slot_entry_eq kept] at held
  obtain ⟨⟨stored, value⟩, present, equal⟩ := Option.map_eq_some_iff.mp held
  cases equal
  exact (cache_entries_iff kept stored _).mpr ⟨bucket, slot, value, present, rfl⟩

theorem placed_places (before : Invariant wyhash map content) {slot : Fin 4} {isEviction : Bool}
    {key value : Bytes} {ttl : Word} {data : Slot} {pool : SlabPool}
    (target : map.tick.chooseTarget (map.bucketOf wyhash key) = some (slot, isEviction))
    (full : isEviction = (content (map.bucketOf wyhash key) slot).isSome)
    (kept : Invariant wyhash (afterPlace wyhash map.tick slot isEviction key ttl data pool)
      (writeAt content (map.bucketOf wyhash key) slot (some (key, value)))) :
    Places wyhash map (afterPlace wyhash map.tick slot isEviction key ttl data pool) key value ttl
      slot := by
  have policy := choose_target_policy target
  have others := after_place_kept before kept
  refine ⟨policy, ?_, ?_, others, ?_, ?_⟩
  · exact written_entry kept ((stamp_at _ _ _ _ _ _).trans (if_pos ⟨rfl, rfl⟩))
  · have written := after_place_bucket wyhash map.tick slot isEviction key ttl data pool
      (map.tick.bucketOf wyhash key)
    rw [if_pos rfl] at written
    change ((afterPlace wyhash map.tick slot isEviction key ttl data pool).buckets
      (map.tick.bucketOf wyhash key)).metaWord.getPriority slot = 0x01#8
    rw [written]
    simp [Bucket.place]
  · have fullIff := meta_full_iff (before.metaAgrees (map.bucketOf wyhash key)) slot
    rw [full]
    simp only [fullIff]
    cases (content (map.bucketOf wyhash key) slot).isSome <;> rfl
  · intro bucket place name entry held live gone
    by_cases here : (bucket, place) = (map.bucketOf wyhash key, slot)
    · obtain ⟨rfl, rfl⟩ := Prod.mk.inj here
      have stillFull : (map.buckets (map.bucketOf wyhash key)).metaWord.getState place = .full := by
        by_contra vacant
        simp [PulseMapRaw.slotEntry, vacant] at held
      rcases policy with ⟨reusable, _⟩ | ⟨busy, minimal⟩
      · rcases reusable with vacant | expired
        · exact absurd stillFull vacant
        · rw [live] at expired
          cases expired
      · refine ⟨rfl, rfl, fun other => ?_⟩
        have occupied := busy other
        simp only [Reusable, not_or, not_not, Bool.not_eq_true] at occupied
        exact ⟨occupied.1, occupied.2, (minimal other).1⟩
    · exact absurd (entries_of_kept kept held (others bucket place here).1) gone

theorem updated_rewrites (before : Invariant wyhash map content) {slot : Fin 4}
    {key value old : Bytes} {ttl : Word} {data : Slot} {pool : SlabPool}
    (held : content (map.bucketOf wyhash key) slot = some (key, old))
    (kept : Invariant wyhash (afterUpdate wyhash map.tick slot key ttl data pool)
      (writeAt content (map.bucketOf wyhash key) slot (some (key, value)))) :
    Rewrites wyhash map (afterUpdate wyhash map.tick slot key ttl data pool) key value ttl slot := by
  refine ⟨?_, after_update_kept before kept, ?_, rfl, rfl⟩
  · exact written_entry kept ((stamp_at _ _ _ _ _ _).trans (if_pos ⟨rfl, rfl⟩))
  · intro name different
    rw [cache_bind before kept (stamp_at _ _ · _ · _) rfl rfl]
    simp [Cache.bind, held, different]

def PlacesByPolicy (wyhash : Bytes → Word) (map : PulseMapRaw) : Prop :=
  ∀ op key value ttl, RawOp.insertion op = some (key, value, ttl) →
    key.length + value.length < 2 ^ 32 →
    ∃ next slot, op.apply wyhash map = some (.done, next) ∧
      (map.cache.entries key = none → Places wyhash map next key value ttl slot) ∧
      (map.cache.entries key ≠ none → Rewrites wyhash map next key value ttl slot)

theorem insert_apply {op : RawOp} {key value : Bytes} {ttl : Word}
    (call : op.insertion = some (key, value, ttl)) :
    op.apply wyhash map = (map.insertInternal wyhash key value ttl).map (RawResult.done, ·) := by
  cases op <;> simp only [RawOp.insertion, Option.some.injEq, Prod.mk.injEq, reduceCtorEq] at call
  all_goals obtain ⟨rfl, rfl, rfl⟩ := call; rfl

theorem places_by_policy (invariant : Invariant wyhash map content) :
    PlacesByPolicy wyhash map := by
  intro op key value ttl call small
  obtain ⟨next, after, inserted, kept, effect⟩ := insert_effect invariant op call small
  have applied : op.apply wyhash map = some (.done, next) := by
    rw [insert_apply call, inserted]
    rfl
  generalize result : RawResult.done = answer at effect
  cases effect with
  | @updated op name text old span slot data pool same held =>
      rw [call] at same
      obtain ⟨rfl, rfl, rfl⟩ : key = name ∧ value = text ∧ ttl = span := by simpa using same
      refine ⟨_, slot, applied, fun absent => ?_, fun _ => updated_rewrites invariant held kept⟩
      rw [cache_held invariant held] at absent
      cases absent
  | @placed op name text span slot isEviction data pool same missing target full =>
      rw [call] at same
      obtain ⟨rfl, rfl, rfl⟩ : key = name ∧ value = text ∧ ttl = span := by simpa using same
      refine ⟨_, slot, applied, fun _ => placed_places invariant target full kept, fun stored => ?_⟩
      exact absurd (cache_absent invariant missing) stored
  | hit held live => cases result
  | peeked held live => cases result
  | missed called hidden => cases result
  | removed held => cases result
  | unremoved missing => cases result
  | retuned ttl => cases call

theorem raw_insert_policy (wyhash : Bytes → Word) (numBuckets : Nat) (bound : numBuckets ≤ 2 ^ 58)
    (ops : List RawOp) (sized : ∀ op ∈ ops, op.Sized) :
    ∃ map, RawOp.run wyhash (PulseMapRaw.new numBuckets) ops = some map ∧
      PlacesByPolicy wyhash map := by
  obtain ⟨map, content, ran, invariant⟩ :=
    run_invariant ops sized (new_invariant wyhash numBuckets bound)
  exact ⟨map, ran, places_by_policy invariant⟩

theorem raw_insert_policy_crowded :
    ∃ map, RawOp.run (fun _ => 0) (PulseMapRaw.new 1) crowdedRun = some map ∧
      PlacesByPolicy (fun _ => 0) map :=
  raw_insert_policy (fun _ => 0) 1 (by norm_num) crowdedRun crowded_run_sized

end PulseMap.Raw
