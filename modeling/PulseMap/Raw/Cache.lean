import PulseMap.Raw.Effect

/-!
The abstract cache and the simulation. The state of the cache is a partial map from
keys to a value, its stamp epoch and its own ttl, with the clock and the default ttl;
an insert may drop one other key of its choice. The raw map, read off its Full slots,
steps like this cache at every call of every run.
-/

namespace PulseMap

structure CacheEntry where
  value : Bytes
  stamp : Word
  ttl : Word
deriving DecidableEq

structure Cache where
  entries : Bytes → Option CacheEntry
  epoch : Word
  defaultTtl : Word

namespace Cache

def Expired (self : Cache) (entry : CacheEntry) : Bool :=
  (SlotTTL.mk entry.stamp entry.ttl).expired self.defaultTtl self.epoch

/-- What a read returns: the bound value unless it is expired. -/
def visible (self : Cache) (key : Bytes) : Option Bytes :=
  match self.entries key with
  | some entry => if self.Expired entry then none else some entry.value
  | none => none

def bind (self : Cache) (key value : Bytes) (ttl : Word) (dropped : Option Bytes) : Cache :=
  { self with
    epoch := self.epoch + 1
    entries := fun name =>
      if name = key then some ⟨value, self.epoch + 1, ttl⟩
      else if some name = dropped then none
      else self.entries name }

def unbind (self : Cache) (key : Bytes) : Cache :=
  { self with entries := fun name => if name = key then none else self.entries name }

inductive Step (cache : Cache) : RawOp → RawResult → Cache → Prop
  | insert {op : RawOp} {key value : Bytes} {ttl : Word}
      (call : op.insertion = some (key, value, ttl)) (dropped : Option Bytes) :
      Step cache op .done (cache.bind key value ttl dropped)
  | get (key : Bytes) : Step cache (.get key) (.value (cache.visible key)) cache
  | peek (key : Bytes) : Step cache (.peek key) (.value (cache.visible key)) cache
  | remove (key : Bytes) :
      Step cache (.remove key) (.removed (cache.entries key).isSome) (cache.unbind key)
  | setTtl (ttl : Word) : Step cache (.setTtl ttl) .done { cache with defaultTtl := ttl }

end Cache

namespace PulseMapRaw

/-- The pair and stamp a Full slot holds, decoded from its bytes and the pool. -/
def slotEntry (self : PulseMapRaw) (bucketIdx : Nat) (slot : Fin 4) :
    Option (Bytes × CacheEntry) :=
  let bucket := self.buckets bucketIdx
  if bucket.metaWord.getState slot = .full then do
    let key ← (bucket.slots slot).getKeyBytes self.slabPool
    let value ← (bucket.slots slot).getValueBytes self.slabPool
    let stamp := self.ttlAt bucketIdx slot
    some (key, ⟨value, stamp.epoch, stamp.ttl⟩)
  else none

def bindings (self : PulseMapRaw) : List (Bytes × CacheEntry) :=
  (List.range self.numBuckets).flatMap fun bucketIdx =>
    (List.finRange 4).filterMap (self.slotEntry bucketIdx)

def cache (self : PulseMapRaw) : Cache where
  entries key := (self.bindings.find? fun binding => binding.1 = key).map Prod.snd
  epoch := self.currentEpoch
  defaultTtl := self.defaultTtl

def UniqueKeys (self : PulseMapRaw) : Prop :=
  ∀ bucket other : Nat, ∀ slot place : Fin 4, ∀ key : Bytes, ∀ entry rival : CacheEntry,
    bucket < self.numBuckets → other < self.numBuckets →
    self.slotEntry bucket slot = some (key, entry) →
    self.slotEntry other place = some (key, rival) → bucket = other ∧ slot = place

end PulseMapRaw

namespace Raw

variable {wyhash : Bytes → Word} {map : PulseMapRaw} {content : Nat → Content}

def stamped (map : PulseMapRaw) (bucket : Nat) (slot : Fin 4) (value : Bytes) : CacheEntry :=
  ⟨value, (map.ttlAt bucket slot).epoch, (map.ttlAt bucket slot).ttl⟩

theorem slot_entry_eq (invariant : Invariant wyhash map content) (bucket : Nat) (slot : Fin 4) :
    map.slotEntry bucket slot =
      (content bucket slot).map fun pair => (pair.1, stamped map bucket slot pair.2) := by
  have packed := invariant.metaAgrees bucket slot
  have bytes := invariant.slotAgrees bucket slot
  simp only [PulseMapRaw.slotEntry, SlotAgrees] at bytes ⊢
  cases held : content bucket slot with
  | none =>
      simp only [held] at packed
      simp [packed]
  | some pair =>
      obtain ⟨key, value⟩ := pair
      simp only [held] at packed bytes
      simp [packed.1, Slot.stores_key bytes, Slot.getValueBytes, Slot.stores_value bytes, stamped]

def Held (map : PulseMapRaw) (content : Nat → Content) (key : Bytes) (entry : CacheEntry) : Prop :=
  ∃ bucket slot value, content bucket slot = some (key, value) ∧
    entry = stamped map bucket slot value

theorem held_unique (invariant : Invariant wyhash map content) {key : Bytes}
    {entry rival : CacheEntry} (first : Held map content key entry)
    (second : Held map content key rival) : entry = rival := by
  obtain ⟨bucket, slot, value, held, rfl⟩ := first
  obtain ⟨other, place, otherValue, otherHeld, rfl⟩ := second
  have sameBucket : bucket = other := by
    rw [← invariant.home bucket slot key value held,
      ← invariant.home other place key otherValue otherHeld]
  subst sameBucket
  have sameSlot := invariant.distinct bucket slot place key value otherValue held otherHeld
  subst sameSlot
  rw [held] at otherHeld
  cases otherHeld
  rfl

theorem mem_bindings (invariant : Invariant wyhash map content) (key : Bytes)
    (entry : CacheEntry) : (key, entry) ∈ map.bindings ↔ Held map content key entry := by
  simp only [PulseMapRaw.bindings, List.mem_flatMap, List.mem_range, List.mem_filterMap,
    List.mem_finRange, true_and, slot_entry_eq invariant]
  constructor
  · rintro ⟨bucket, _, slot, found⟩
    obtain ⟨⟨stored, value⟩, held, same⟩ := Option.map_eq_some_iff.mp found
    cases same
    exact ⟨bucket, slot, value, held, rfl⟩
  · rintro ⟨bucket, slot, value, held, rfl⟩
    have home := invariant.home bucket slot key value held
    exact ⟨bucket, home ▸ bucket_of_lt invariant key, slot, by simp [held]⟩

theorem cache_entries_iff (invariant : Invariant wyhash map content) (key : Bytes)
    (entry : CacheEntry) : map.cache.entries key = some entry ↔ Held map content key entry := by
  simp only [PulseMapRaw.cache, Option.map_eq_some_iff]
  constructor
  · rintro ⟨⟨stored, found⟩, located, rfl⟩
    have member := List.mem_of_find?_eq_some located
    have same : stored = key := by simpa using List.find?_some located
    rw [same] at member
    exact (mem_bindings invariant key found).mp member
  · intro held
    have member := (mem_bindings invariant key entry).mpr held
    cases located : map.bindings.find? fun binding => binding.1 = key with
    | none =>
        have absent := List.find?_eq_none.mp located (key, entry) member
        simp at absent
    | some binding =>
        obtain ⟨stored, found⟩ := binding
        have same : stored = key := by simpa using List.find?_some located
        subst same
        have other := (mem_bindings invariant stored found).mp (List.mem_of_find?_eq_some located)
        exact ⟨(stored, found), rfl, held_unique invariant other held⟩

theorem unique_keys (invariant : Invariant wyhash map content) : map.UniqueKeys := by
  intro bucket other slot place key entry rival _ _ found otherFound
  rw [slot_entry_eq invariant] at found otherFound
  obtain ⟨⟨stored, value⟩, held, same⟩ := Option.map_eq_some_iff.mp found
  obtain ⟨⟨otherStored, otherValue⟩, otherHeld, otherSame⟩ := Option.map_eq_some_iff.mp otherFound
  cases same
  cases otherSame
  have sameBucket : bucket = other := by
    rw [← invariant.home bucket slot stored value held,
      ← invariant.home other place stored otherValue otherHeld]
  subst sameBucket
  exact ⟨rfl, invariant.distinct bucket slot place stored value otherValue held otherHeld⟩

theorem stamp_at (map : PulseMapRaw) (bucket other : Nat) (slot place : Fin 4) (ttl : Word) :
    (map.stampSlotTtl bucket slot ttl).ttlAt other place =
      if other = bucket ∧ place = slot then ⟨map.currentEpoch, ttl⟩ else map.ttlAt other place := by
  simp only [PulseMapRaw.ttlAt, PulseMapRaw.stampSlotTtl, Function.update_apply]
  by_cases here : other = bucket ∧ place = slot
  · simp [here]
  · have apart : other * 4 + place.val ≠ bucket * 4 + slot.val := by
      intro same
      exact here ⟨by omega, Fin.ext (by omega)⟩
    simp [here, apart]

/-- An insert that wrote its pair and stamp to one slot, seen from the cache: the key
is bound, and only the slot's previous key can be gone. -/
theorem cache_bind (before : Invariant wyhash map content) {next : PulseMapRaw} {slot : Fin 4}
    {key value : Bytes} {ttl : Word}
    (after : Invariant wyhash next
      (writeAt content (map.bucketOf wyhash key) slot (some (key, value))))
    (stamps : ∀ other place, next.ttlAt other place =
      if other = map.bucketOf wyhash key ∧ place = slot then ⟨map.currentEpoch + 1, ttl⟩
      else map.ttlAt other place)
    (clock : next.currentEpoch = map.currentEpoch + 1) (sameDefault : next.defaultTtl = map.defaultTtl) :
    next.cache = map.cache.bind key value ttl
      (((content (map.bucketOf wyhash key) slot).map Prod.fst)) := by
  have sameEntries : ∀ name, next.cache.entries name =
      (map.cache.bind key value ttl
        (((content (map.bucketOf wyhash key) slot).map Prod.fst))).entries name := by
    intro name
    apply Option.ext
    intro entry
    rw [cache_entries_iff after]
    simp only [Cache.bind]
    split_ifs with isKey isDropped
    · subst isKey
      have bound : Held next (writeAt content (map.bucketOf wyhash name) slot (some (name, value)))
          name ⟨value, map.currentEpoch + 1, ttl⟩ :=
        ⟨map.bucketOf wyhash name, slot, value, by simp [write_at_apply],
          by simp [stamped, stamps]⟩
      constructor
      · intro held
        rw [held_unique after held bound]
        rfl
      · intro same
        cases same
        exact bound
    · simp only [iff_false]
      rintro ⟨bucket, place, stored, held, _⟩
      obtain ⟨⟨old, oldValue⟩, oldHeld, oldName⟩ := Option.map_eq_some_iff.mp isDropped.symm
      simp only at oldName
      subst oldName
      rw [write_at_apply] at held
      split_ifs at held with here
      · cases held
        exact isKey rfl
      · have home := before.home bucket place old stored held
        have oldHome := before.home _ slot old oldValue oldHeld
        rw [oldHome] at home
        subst home
        exact here ⟨rfl, before.distinct _ place slot old stored oldValue held oldHeld⟩
    · rw [cache_entries_iff before]
      constructor
      · rintro ⟨bucket, place, stored, held, rfl⟩
        rw [write_at_apply] at held
        split_ifs at held with here
        · cases held
          exact absurd rfl isKey
        · exact ⟨bucket, place, stored, held, by simp [stamped, stamps, here]⟩
      · rintro ⟨bucket, place, stored, held, rfl⟩
        have apart : ¬(bucket = map.bucketOf wyhash key ∧ place = slot) := by
          rintro ⟨rfl, rfl⟩
          exact isDropped (by simp [held])
        exact ⟨bucket, place, stored, by simp [write_at_apply, apart, held],
          by simp [stamped, stamps, apart]⟩
  have entries : next.cache.entries = _ := funext sameEntries
  simp only [Cache.bind] at entries ⊢
  rw [← entries]
  simp only [PulseMapRaw.cache, clock, sameDefault]

theorem cache_same (before : Invariant wyhash map content) {next : PulseMapRaw}
    (after : Invariant wyhash next content)
    (stamps : ∀ other place, next.ttlAt other place = map.ttlAt other place)
    (clock : next.currentEpoch = map.currentEpoch) :
    next.cache = { map.cache with defaultTtl := next.defaultTtl } := by
  have sameEntries : next.cache.entries = map.cache.entries := by
    funext name
    apply Option.ext
    intro entry
    rw [cache_entries_iff after, cache_entries_iff before]
    simp only [Held, stamped, stamps]
  change next.cache = ⟨map.cache.entries, map.cache.epoch, next.defaultTtl⟩
  rw [← sameEntries]
  simp only [PulseMapRaw.cache, clock]

theorem cache_unbind (before : Invariant wyhash map content) {next : PulseMapRaw} {slot : Fin 4}
    {key value : Bytes} (held : content (map.bucketOf wyhash key) slot = some (key, value))
    (after : Invariant wyhash next (writeAt content (map.bucketOf wyhash key) slot none))
    (stamps : ∀ other place, next.ttlAt other place = map.ttlAt other place)
    (clock : next.currentEpoch = map.currentEpoch) (sameDefault : next.defaultTtl = map.defaultTtl) :
    next.cache = map.cache.unbind key := by
  have entries : next.cache.entries = (map.cache.unbind key).entries := by
    funext name
    apply Option.ext
    intro entry
    rw [cache_entries_iff after]
    simp only [Cache.unbind]
    split_ifs with isKey
    · subst isKey
      simp only [iff_false]
      rintro ⟨bucket, place, stored, still, _⟩
      rw [write_at_apply] at still
      split_ifs at still with here
      have home := before.home bucket place name stored still
      subst home
      exact here ⟨rfl, before.distinct _ place slot name stored value still held⟩
    · rw [cache_entries_iff before]
      constructor
      · rintro ⟨bucket, place, stored, still, rfl⟩
        rw [write_at_apply] at still
        split_ifs at still with here
        exact ⟨bucket, place, stored, still, by simp [stamped, stamps]⟩
      · rintro ⟨bucket, place, stored, still, rfl⟩
        have apart : ¬(bucket = map.bucketOf wyhash key ∧ place = slot) := by
          rintro ⟨rfl, rfl⟩
          rw [held] at still
          cases still
          exact isKey rfl
        exact ⟨bucket, place, stored, by simp [write_at_apply, apart, still],
          by simp [stamped, stamps]⟩
  simp only [Cache.unbind] at entries ⊢
  rw [← entries]
  simp only [PulseMapRaw.cache, clock, sameDefault]

theorem cache_held (invariant : Invariant wyhash map content) {key value : Bytes} {slot : Fin 4}
    (held : content (map.bucketOf wyhash key) slot = some (key, value)) :
    map.cache.entries key = some (stamped map (map.bucketOf wyhash key) slot value) :=
  (cache_entries_iff invariant key _).mpr ⟨_, slot, value, held, rfl⟩

theorem cache_absent (invariant : Invariant wyhash map content) {key : Bytes}
    (missing : slotOf (content (map.bucketOf wyhash key)) key = none) :
    map.cache.entries key = none := by
  cases found : map.cache.entries key with
  | none => rfl
  | some entry =>
      obtain ⟨bucket, slot, value, held, _⟩ := (cache_entries_iff invariant key entry).mp found
      exact absurd held (absent_everywhere invariant missing bucket slot value)

theorem visible_live (invariant : Invariant wyhash map content) {key value : Bytes} {slot : Fin 4}
    (held : content (map.bucketOf wyhash key) slot = some (key, value))
    (live : map.isExpired (map.bucketOf wyhash key) slot = false) :
    map.cache.visible key = some value := by
  have fresh : map.cache.Expired (stamped map (map.bucketOf wyhash key) slot value) = false := live
  simp only [Cache.visible, cache_held invariant held, fresh]
  rfl

theorem visible_hidden (invariant : Invariant wyhash map content) {key : Bytes}
    (hidden : ∀ slot value, content (map.bucketOf wyhash key) slot = some (key, value) →
      map.isExpired (map.bucketOf wyhash key) slot = true) : map.cache.visible key = none := by
  cases found : slotOf (content (map.bucketOf wyhash key)) key with
  | none => simp only [Cache.visible, cache_absent invariant found]
  | some slot =>
      obtain ⟨value, held⟩ := slot_of_some found
      have expired : map.cache.Expired (stamped map (map.bucketOf wyhash key) slot value) = true :=
        hidden slot value held
      simp only [Cache.visible, cache_held invariant held, expired, if_true]

/-- Forward simulation, one call: every effect of the map is a step of the cache. -/
theorem effect_simulates (before : Invariant wyhash map content) {op : RawOp} {result : RawResult}
    {next : PulseMapRaw} {after : Nat → Content} (kept : Invariant wyhash next after)
    (effect : Effect wyhash map content op result next after) :
    Cache.Step map.cache op result next.cache := by
  cases effect with
  | updated call held =>
      rw [cache_bind before kept (stamp_at _ _ · _ · _) rfl rfl]
      exact .insert call _
  | placed call missing target full =>
      rw [cache_bind before kept (stamp_at _ _ · _ · _) rfl rfl]
      exact .insert call _
  | @hit key value slot held live =>
      rw [cache_same before kept (fun _ _ => rfl) rfl, ← visible_live before held live]
      exact .get key
  | @peeked key value slot held live =>
      rw [← visible_live before held live]
      exact .peek key
  | @missed op key call hidden =>
      rw [← visible_hidden before hidden]
      rcases call with rfl | rfl
      · exact .get key
      · exact .peek key
  | @removed key value slot held =>
      rw [cache_unbind before held kept (fun _ _ => rfl) rfl rfl]
      have bound : true = (map.cache.entries key).isSome := by
        rw [cache_held before held]
        rfl
      rw [bound]
      exact .remove key
  | @unremoved key missing =>
      have unbound := cache_absent before missing
      have same : map.cache.unbind key = map.cache := by
        have entries : (map.cache.unbind key).entries = map.cache.entries := by
          funext name
          by_cases isKey : name = key
          · simp [Cache.unbind, isKey, unbound]
          · simp [Cache.unbind, isKey]
        simp only [Cache.unbind] at entries ⊢
        rw [entries]
      have step : Cache.Step map.cache (.remove key)
          (.removed (map.cache.entries key).isSome) (map.cache.unbind key) := .remove key
      rw [same, unbound] at step
      exact step
  | retuned ttl =>
      rw [cache_same before kept (fun _ _ => rfl) rfl]
      exact .setTtl ttl

/-! ### Hits against the shadow map -/

/-- The shadow of a run: the last value inserted for each key and not removed since. -/
def shadow : List RawOp → Bytes → Option Bytes
  | [], _ => none
  | op :: earlier, key =>
      match op with
      | .insert name value => if name = key then some value else shadow earlier key
      | .insertTtl name value _ => if name = key then some value else shadow earlier key
      | .remove name => if name = key then none else shadow earlier key
      | _ => shadow earlier key

/-- Every bound value is the shadow's; `history` lists the calls, latest first. -/
def Shadowed (history : List RawOp) (cache : Cache) : Prop :=
  ∀ key entry, cache.entries key = some entry → shadow history key = some entry.value

theorem shadow_insertion {op : RawOp} {key value : Bytes} {ttl : Word}
    (call : op.insertion = some (key, value, ttl)) (history : List RawOp) (name : Bytes) :
    shadow (op :: history) name = if key = name then some value else shadow history name := by
  cases op <;> simp only [RawOp.insertion, Option.some.injEq, Prod.mk.injEq, reduceCtorEq] at call
  all_goals obtain ⟨rfl, rfl, rfl⟩ := call; rfl

theorem step_shadowed {history : List RawOp} {cache next : Cache} {op : RawOp}
    {result : RawResult} (shadowed : Shadowed history cache)
    (step : Cache.Step cache op result next) : Shadowed (op :: history) next := by
  intro name entry found
  cases step with
  | @insert _ key value ttl call dropped =>
      rw [shadow_insertion call]
      simp only [Cache.bind] at found
      split_ifs at found with isKey isDropped
      · cases found
        simp [isKey]
      · rw [if_neg fun same => isKey same.symm]
        exact shadowed name entry found
  | get key => exact shadowed name entry found
  | peek key => exact shadowed name entry found
  | remove key =>
      simp only [Cache.unbind] at found
      split_ifs at found with isKey
      simp only [shadow]
      rw [if_neg fun same => isKey same.symm]
      exact shadowed name entry found
  | setTtl ttl => exact shadowed name entry found

theorem run_shadowed (ops history : List RawOp) (sized : ∀ op ∈ ops, op.Sized)
    (invariant : Invariant wyhash map content) (shadowed : Shadowed history map.cache) :
    ∃ last after, RawOp.run wyhash map ops = some last ∧ Invariant wyhash last after ∧
      Shadowed (ops.reverse ++ history) last.cache := by
  induction ops generalizing map content history with
  | nil => exact ⟨map, content, rfl, invariant, shadowed⟩
  | cons op rest induction =>
      obtain ⟨result, next, after, applied, kept, effect⟩ :=
        apply_effect invariant op (sized op (by simp))
      have stepped := step_shadowed shadowed (effect_simulates invariant kept effect)
      obtain ⟨last, final, ran, holds, shown⟩ := induction (op :: history)
        (fun other member => sized other (by simp [member])) kept stepped
      exact ⟨last, final, by simp [RawOp.run, applied, ran], holds, by simpa using shown⟩

theorem new_shadowed (wyhash : Bytes → Word) (numBuckets : Nat) (bound : numBuckets ≤ 2 ^ 58) :
    Shadowed [] (PulseMapRaw.new numBuckets).cache := by
  intro key entry found
  obtain ⟨bucket, slot, value, held, _⟩ :=
    (cache_entries_iff (new_invariant wyhash numBuckets bound) key entry).mp found
  simp at held

theorem visible_entry {cache : Cache} {key value : Bytes} (seen : cache.visible key = some value) :
    ∃ entry, cache.entries key = some entry ∧ entry.value = value := by
  cases found : cache.entries key with
  | none => simp [Cache.visible, found] at seen
  | some entry =>
      refine ⟨entry, rfl, ?_⟩
      by_cases expired : cache.Expired entry
      · simp [Cache.visible, found, expired] at seen
      · simpa [Cache.visible, found, expired] using seen

/-- The map behaves as a cache after the calls `ops`: keys are unique, every further call
returns and is a step of the cache it represents, and a visible value is that of the
latest insert of its key with no removal since. -/
def BehavesAsCache (wyhash : Bytes → Word) (ops : List RawOp) (map : PulseMapRaw) : Prop :=
  map.UniqueKeys ∧
    (∀ op : RawOp, op.Sized → ∃ result next, op.apply wyhash map = some (result, next) ∧
      Cache.Step map.cache op result next.cache) ∧
    ∀ key value, map.cache.visible key = some value → shadow ops.reverse key = some value

theorem raw_simulates_cache (wyhash : Bytes → Word) (numBuckets : Nat)
    (bound : numBuckets ≤ 2 ^ 58) (ops : List RawOp) (sized : ∀ op ∈ ops, op.Sized) :
    ∃ map, RawOp.run wyhash (PulseMapRaw.new numBuckets) ops = some map ∧
      BehavesAsCache wyhash ops map := by
  obtain ⟨map, content, ran, invariant, shadowed⟩ := run_shadowed ops [] sized
    (new_invariant wyhash numBuckets bound) (new_shadowed wyhash numBuckets bound)
  refine ⟨map, ran, unique_keys invariant, ?_, ?_⟩
  · intro op opSized
    obtain ⟨result, next, after, applied, kept, effect⟩ := apply_effect invariant op opSized
    exact ⟨result, next, applied, effect_simulates invariant kept effect⟩
  · intro key value seen
    obtain ⟨entry, found, rfl⟩ := visible_entry seen
    simpa using shadowed key entry found

theorem sized_insert {key value : Bytes} (small : key.length + value.length < 2 ^ 32) :
    (RawOp.insert key value).Sized := by
  intro name stored ttl call
  cases call
  exact small

/-- Calls that fill the one bucket of a map with pairs inside and outside of the slab, hit,
rewrite and remove some of them, and in the end evict one. -/
def crowdedRun : List RawOp :=
  [.insert [1] [10], .insert [2] [1, 2, 3, 4, 5, 6, 7, 8], .insert [3] [30],
    .insert [4] [8, 7, 6, 5, 4, 3, 2, 1], .get [1], .insert [2] [1, 2, 3, 4, 5, 6, 7, 8, 9],
    .remove [4], .insert [5] [1, 2, 3, 4, 5, 6, 7, 8, 9, 10], .insert [6] [60]]

theorem crowded_run_sized : ∀ op ∈ crowdedRun, op.Sized := by
  have small : ∀ op ∈ crowdedRun, ∀ pair ∈ op.insertion, pair.1.length + pair.2.1.length < 2 ^ 32 := by
    decide
  exact fun op member key value ttl inserts => small op member _ inserts

example : (RawOp.run (fun _ => 0) (PulseMapRaw.new 1) crowdedRun).map (fun map =>
    (map.count, map.evictionCount, map.slabPool.entries.length)) = some (4, 1, 2) := by
  decide +kernel

theorem raw_simulates_cache_crowded :
    ∃ map, RawOp.run (fun _ => 0) (PulseMapRaw.new 1) crowdedRun = some map ∧
      BehavesAsCache (fun _ => 0) crowdedRun map :=
  raw_simulates_cache (fun _ => 0) 1 (by norm_num) crowdedRun crowded_run_sized

/-! ### Slab ownership -/

def HoldsIndex (map : PulseMapRaw) (bucket : Nat) (slot : Fin 4) (idx : Nat) : Prop :=
  bucket < map.numBuckets ∧ (map.buckets bucket).metaWord.getState slot = .full ∧
    ((map.buckets bucket).slots slot).getMode = 1#8 ∧
    ((map.buckets bucket).slots slot).slabIdx = idx

structure ExactOwnership (map : PulseMapRaw) : Prop where
  freeDistinct : map.slabPool.freeList.Nodup
  freeInRange : ∀ idx ∈ map.slabPool.freeList, idx < map.slabPool.entries.length
  heldInRange : ∀ bucket slot idx, HoldsIndex map bucket slot idx →
    idx < map.slabPool.entries.length ∧ idx ∉ map.slabPool.freeList
  heldOnce : ∀ bucket other slot place idx, HoldsIndex map bucket slot idx →
    HoldsIndex map other place idx → bucket = other ∧ slot = place
  accounted : ∀ idx < map.slabPool.entries.length,
    idx ∈ map.slabPool.freeList ∨ ∃ bucket slot, HoldsIndex map bucket slot idx
  vacantInline : ∀ bucket < map.numBuckets, ∀ slot,
    (map.buckets bucket).metaWord.getState slot ≠ .full →
    ((map.buckets bucket).slots slot).getMode = 0#8
  poolBound : map.slabPool.entries.length ≤ 4 * map.numBuckets

theorem holds_index_iff (invariant : Invariant wyhash map content) (bucket : Nat) (slot : Fin 4)
    (idx : Nat) : HoldsIndex map bucket slot idx ↔ map.own (bucket, slot) = some idx := by
  simp only [HoldsIndex, PulseMapRaw.own, Bucket.slotIndex, Slot.slabIndex]
  constructor
  · rintro ⟨_, full, mode, index⟩
    simp [full, mode, index]
  · intro held
    have inside := (invariant.accounts.ownBound (bucket, slot) idx held).1
    split_ifs at held with full mode
    exact ⟨mem_positions.mp inside, full, mode, Option.some.inj held⟩

theorem exact_ownership (invariant : Invariant wyhash map content) : ExactOwnership map where
  freeDistinct := invariant.accounts.freeDistinct
  freeInRange := invariant.accounts.freeBound
  heldInRange := by
    intro bucket slot idx held
    exact (invariant.accounts.ownBound _ idx ((holds_index_iff invariant ..).mp held)).2
  heldOnce := by
    intro bucket other slot place idx held otherHeld
    have same := invariant.accounts.exclusive _ _ idx ((holds_index_iff invariant ..).mp held)
      ((holds_index_iff invariant ..).mp otherHeld)
    exact ⟨congrArg Prod.fst same, congrArg Prod.snd same⟩
  accounted := by
    intro idx below
    rcases invariant.accounts.covered idx below with free | ⟨⟨bucket, slot⟩, held⟩
    · exact Or.inl free
    · exact Or.inr ⟨bucket, slot, (holds_index_iff invariant ..).mpr held⟩
  vacantInline := by
    intro bucket _ slot vacant
    have bytes := invariant.slotAgrees bucket slot
    cases held : content bucket slot with
    | none => simpa [SlotAgrees, held] using bytes
    | some pair =>
        have full := (meta_full_iff (invariant.metaAgrees bucket) slot).mpr (by simp [held])
        exact absurd full vacant
  poolBound := by
    have bound := invariant.accounts.sizeBound
    rwa [positions_card] at bound

/-- Slab ownership is exact after every run, so no later call indexes the pool out of
range: it returns instead of panicking. -/
theorem raw_slab_ownership (wyhash : Bytes → Word) (numBuckets : Nat)
    (bound : numBuckets ≤ 2 ^ 58) (ops : List RawOp) (sized : ∀ op ∈ ops, op.Sized) :
    ∃ map, RawOp.run wyhash (PulseMapRaw.new numBuckets) ops = some map ∧ ExactOwnership map ∧
      ∀ op : RawOp, op.Sized → (op.apply wyhash map).isSome := by
  obtain ⟨map, content, ran, invariant⟩ :=
    run_invariant ops sized (new_invariant wyhash numBuckets bound)
  refine ⟨map, ran, exact_ownership invariant, ?_⟩
  intro op opSized
  obtain ⟨result, next, after, applied, _⟩ := apply_effect invariant op opSized
  simp [applied]

theorem raw_slab_ownership_crowded :
    ∃ map, RawOp.run (fun _ => 0) (PulseMapRaw.new 1) crowdedRun = some map ∧ ExactOwnership map ∧
      ∀ op : RawOp, op.Sized → (op.apply (fun _ => 0) map).isSome :=
  raw_slab_ownership (fun _ => 0) 1 (by norm_num) crowdedRun crowded_run_sized

end Raw

end PulseMap
