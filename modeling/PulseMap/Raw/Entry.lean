import PulseMap.Raw.Counting
import PulseMap.Raw.Lifetime
import PulseMap.Raw.Placement
import PulseMap.Raw.Typed

/-!
The entry API of `lib.rs`. An entry borrows the map and keeps a decoded copy of the value,
which `and_modify` writes back through the general insert; a chain of such calls is one
read, modify and write of a single key. A closure acts on the world it captures.
-/

namespace PulseMap

structure OccupiedEntry (Key Value : Type) where
  map : TypedPulseMap Key Value
  key : Key
  value : Value

structure VacantEntry (Key Value : Type) where
  map : TypedPulseMap Key Value
  key : Key

inductive Entry (Key Value : Type) where
  | occupied (entry : OccupiedEntry Key Value)
  | vacant (entry : VacantEntry Key Value)

variable {Key Value σ : Type} [PulseKey Key] [PulseValue Value] (wyhash : Bytes → Word)

def TypedPulseMap.entry (self : TypedPulseMap Key Value) (key : Key) :
    Option (Entry Key Value) := do
  let existing ← self.raw.peek wyhash (keyBytes key)
  match existing.bind PulseValue.codec.fromBytes with
  | some value => some (.occupied ⟨self, key, value⟩)
  | none => some (.vacant ⟨self, key⟩)

namespace Entry

def orInsert (self : Entry Key Value) (default : Value) : Option (TypedPulseMap Key Value) :=
  match self with
  | occupied entry => some entry.map
  | vacant entry => entry.map.insert wyhash entry.key default

def orInsertWith (self : Entry Key Value) (f : σ → Value × σ) (world : σ) :
    Option (TypedPulseMap Key Value × σ) :=
  match self with
  | occupied entry => some (entry.map, world)
  | vacant entry => do
      let (value, world) := f world
      let map ← entry.map.insert wyhash entry.key value
      some (map, world)

def andModify (self : Entry Key Value) (f : Value → σ → Value × σ) (world : σ) :
    Option (Entry Key Value × σ) :=
  match self with
  | occupied entry => do
      let (value, world) := f entry.value world
      let raw ← entry.map.raw.insert wyhash (keyBytes entry.key) (valueBytes value)
      some (.occupied ⟨⟨raw⟩, entry.key, value⟩, world)
  | vacant entry => some (.vacant entry, world)

/-- `.and_modify(f1)...and_modify(fn)`. -/
def andModifyAll (self : Entry Key Value) :
    List (Value → σ → Value × σ) → σ → Option (Entry Key Value × σ)
  | [], world => some (self, world)
  | f :: rest, world => do
      let (entry, world) ← self.andModify wyhash f world
      entry.andModifyAll rest world

end Entry

/-- `entry(key)` followed by the modifications. -/
def TypedPulseMap.chain (self : TypedPulseMap Key Value) (key : Key)
    (fs : List (Value → σ → Value × σ)) (world : σ) : Option (Entry Key Value × σ) := do
  let entry ← self.entry wyhash key
  entry.andModifyAll wyhash fs world

namespace OccupiedEntry

def insert (self : OccupiedEntry Key Value) (value : Value) :
    Option (Value × TypedPulseMap Key Value) := do
  let map ← self.map.insert wyhash self.key value
  some (self.value, map)

def remove (self : OccupiedEntry Key Value) : Option (Value × TypedPulseMap Key Value) := do
  let (_, map) ← self.map.remove wyhash self.key
  some (self.value, map)

end OccupiedEntry

def VacantEntry.insert (self : VacantEntry Key Value) (value : Value) :
    Option (TypedPulseMap Key Value) :=
  self.map.insert wyhash self.key value

/-! ### What the calls mean -/

def Fits (key : Key) (value : Value) : Prop :=
  (keyBytes key).length + (valueBytes value).length < 2 ^ 32

def modified (fs : List (Value → σ → Value × σ)) (point : Value × σ) : Value × σ :=
  fs.foldl (fun point f => f point.1 point.2) point

def Fitting (key : Key) : List (Value → σ → Value × σ) → Value × σ → Prop
  | [], _ => True
  | f :: rest, point => Fits key (f point.1 point.2).1 ∧ Fitting key rest (f point.1 point.2)

namespace TypedPulseMap

def Reachable (map : TypedPulseMap Key Value) : Prop :=
  ∃ numBuckets ≤ 2 ^ 58, ∃ ops : List (TypedOp Key Value), (∀ op ∈ ops, op.encode.Sized) ∧
    TypedOp.run wyhash (TypedPulseMap.new numBuckets) ops = some map

/-- What the map stores under the bytes of a key, expired or not. -/
def stored (map : TypedPulseMap Key Value) (name : Bytes) : Option CacheEntry :=
  map.raw.cache.entries name

/-- The key is bound to the value by some inserts, and nothing else has changed. -/
structure Rebinds (map final : TypedPulseMap Key Value) (key : Key) (value : Value)
    (inserts : Nat) : Prop where
  reachable : final.Reachable wyhash
  peeked : final.peek wyhash key = some (some value)
  epoch : final.raw.currentEpoch = map.raw.currentEpoch + BitVec.ofNat 64 inserts
  others : ∀ name, name ≠ keyBytes key → final.stored name = map.stored name
  len : final.raw.len = map.raw.len
  evictions : final.raw.evictionCount = map.raw.evictionCount

/-- A key that could not be read is bound by one insert, which displaces at most one other
entry, and none when the key was stored. -/
structure Fills (map final : TypedPulseMap Key Value) (key : Key) (value : Value) : Prop where
  reachable : final.Reachable wyhash
  peeked : final.peek wyhash key = some (some value)
  epoch : final.raw.currentEpoch = map.raw.currentEpoch + 1
  others : ∃ dropped : Option Bytes, ∀ name, name ≠ keyBytes key →
    final.stored name = if some name = dropped then none else map.stored name
  kept : map.stored (keyBytes key) ≠ none → ∀ name, name ≠ keyBytes key →
    final.stored name = map.stored name

/-- The key is gone, and nothing else has changed but the length and the inserts before. -/
structure Deletes (map final : TypedPulseMap Key Value) (key : Key) (inserts : Nat) : Prop where
  reachable : final.Reachable wyhash
  absent : final.stored (keyBytes key) = none
  epoch : final.raw.currentEpoch = map.raw.currentEpoch + BitVec.ofNat 64 inserts
  others : ∀ name, name ≠ keyBytes key → final.stored name = map.stored name
  len : final.raw.len + 1 = map.raw.len
  evictions : final.raw.evictionCount = map.raw.evictionCount

/-- The chain on a key that reads as `value`: every closure is applied, in their order, the
default is not used, and the entry that is left removes or replaces exactly this key. -/
structure UpdatesInPlace (map : TypedPulseMap Key Value) (key : Key)
    (fs : List (Value → σ → Value × σ)) (world : σ) (value : Value)
    (last : OccupiedEntry Key Value) : Prop where
  chained : map.chain wyhash key fs world = some (.occupied last, (modified fs (value, world)).2)
  copy : last.value = (modified fs (value, world)).1
  rebinds : map.Rebinds wyhash last.map key last.value fs.length
  orInsert : ∀ default, (Entry.occupied last).orInsert wyhash default = some last.map
  orInsertWith : ∀ (f : σ → Value × σ) after,
    (Entry.occupied last).orInsertWith wyhash f after = some (last.map, after)
  remove : ∃ removed, last.remove wyhash = some (last.value, removed) ∧
    map.Deletes wyhash removed key fs.length
  insert : ∀ other, Fits key other → ∃ replaced,
    last.insert wyhash other = some (last.value, replaced) ∧
      map.Rebinds wyhash replaced key other (fs.length + 1)

/-- The chain on a key that cannot be read: no closure is applied, and the default is stored. -/
structure FillsVacancy (map : TypedPulseMap Key Value) (key : Key)
    (fs : List (Value → σ → Value × σ)) (world : σ) (last : VacantEntry Key Value) : Prop where
  chained : map.chain wyhash key fs world = some (.vacant last, world)
  orInsert : ∀ default, Fits key default → ∃ final,
    (Entry.vacant last).orInsert wyhash default = some final ∧ map.Fills wyhash final key default
  orInsertWith : ∀ (f : σ → Value × σ) after, Fits key (f after).1 → ∃ final,
    (Entry.vacant last).orInsertWith wyhash f after = some (final, (f after).2) ∧
      map.Fills wyhash final key (f after).1
  insert : ∀ value, Fits key value → ∃ final,
    last.insert wyhash value = some final ∧ map.Fills wyhash final key value

variable {wyhash} {map final : TypedPulseMap Key Value} {key : Key} {value : Value}

/-! ### Reachable maps -/

theorem run_append (map : TypedPulseMap Key Value) (past future : List (TypedOp Key Value)) :
    TypedOp.run wyhash map (past ++ future) =
      (TypedOp.run wyhash map past).bind (TypedOp.run wyhash · future) := by
  induction past generalizing map with
  | nil => rfl
  | cons op rest induction =>
      simp only [List.cons_append, TypedOp.run]
      cases op.apply wyhash map with
      | none => rfl
      | some answer => exact induction answer.2

theorem reachable_next (reachable : map.Reachable wyhash) {op : TypedOp Key Value}
    (sized : op.encode.Sized) {result : TypedResult Value}
    (applied : op.apply wyhash map = some (result, final)) : final.Reachable wyhash := by
  obtain ⟨numBuckets, bound, ops, all, ran⟩ := reachable
  refine ⟨numBuckets, bound, ops ++ [op], ?_, ?_⟩
  · intro other member
    rcases List.mem_append.mp member with old | new
    · exact all other old
    · rw [List.mem_singleton.mp new]
      exact sized
  · simp [run_append, ran, TypedOp.run, applied]

theorem encoded_empty : Raw.Encoded Key Value fun _ _ => none := by
  intro bucket slot name text held
  cases held

theorem reachable_content (reachable : map.Reachable wyhash) :
    ∃ content, Raw.Invariant wyhash map.raw content ∧ Raw.Encoded Key Value content := by
  obtain ⟨numBuckets, bound, ops, sized, ran⟩ := reachable
  obtain ⟨last, after, again, invariant, encoded⟩ := Raw.run_encoded ops sized
    (Raw.new_invariant wyhash numBuckets bound) encoded_empty
  obtain rfl : map = ⟨last⟩ := Option.some.inj (ran.symm.trans again)
  exact ⟨after, invariant, encoded⟩

theorem peek_encoded (reachable : map.Reachable wyhash) (key : Key) :
    ∃ found : Option Value, map.raw.peek wyhash (keyBytes key) = some (found.map valueBytes) ∧
      map.peek wyhash key = some found := by
  obtain ⟨content, invariant, encoded⟩ := reachable_content reachable
  have peeked := Raw.peek_visible invariant (keyBytes key)
  cases seen : map.raw.cache.visible (keyBytes key) with
  | none =>
      rw [seen] at peeked
      exact ⟨none, peeked, by simp [peek, peeked]⟩
  | some text =>
      rw [seen] at peeked
      obtain ⟨entry, bound, rfl⟩ := Raw.visible_entry seen
      obtain ⟨bucket, slot, held, present, same⟩ :=
        (Raw.cache_entries_iff invariant (keyBytes key) entry).mp bound
      obtain ⟨_, value, _, bytes⟩ := encoded bucket slot _ _ present
      have text : entry.value = valueBytes value := by rw [same, bytes]; rfl
      refine ⟨some value, by rw [peeked, text]; rfl, ?_⟩
      rw [peek, peeked, text]
      exact congrArg some (PulseValue.codec.decodes value)

theorem stored_of_peek (reachable : map.Reachable wyhash)
    (peeked : map.peek wyhash key = some (some value)) : map.stored (keyBytes key) ≠ none := by
  obtain ⟨content, invariant, _⟩ := reachable_content reachable
  obtain ⟨found, bytes, again⟩ := peek_encoded reachable key
  obtain rfl : found = some value := Option.some.inj (again.symm.trans peeked)
  rw [Raw.peek_visible invariant] at bytes
  obtain ⟨entry, bound, _⟩ := Raw.visible_entry (Option.some.inj bytes)
  rw [stored, bound]
  exact Option.some_ne_none entry

/-! ### One insert and one remove -/

theorem bind_visible (cache : Cache) (name text : Bytes) (ttl : Word) (dropped : Option Bytes) :
    (cache.bind name text ttl dropped).visible name = some text := by
  have live : (cache.bind name text ttl dropped).Expired ⟨text, cache.epoch + 1, ttl⟩ = false := by
    simp [Cache.Expired, SlotTTL.expired, Cache.bind]
  have bound : (cache.bind name text ttl dropped).entries name =
      some ⟨text, cache.epoch + 1, ttl⟩ := if_pos rfl
  simp only [Cache.visible, bound, live]
  rfl

/-- The insert of a stored key overwrites its own slot and counts nothing. -/
theorem insert_binds (reachable : map.Reachable wyhash) (fits : Fits key value) :
    ∃ raw, map.raw.insert wyhash (keyBytes key) (valueBytes value) = some raw ∧
      (⟨raw⟩ : TypedPulseMap Key Value).Reachable wyhash ∧ ∃ dropped,
        raw.cache = map.raw.cache.bind (keyBytes key) (valueBytes value) 0#64 dropped ∧
        (map.stored (keyBytes key) ≠ none → dropped = some (keyBytes key) ∧
          raw.len = map.raw.len ∧ raw.evictionCount = map.raw.evictionCount) := by
  obtain ⟨content, invariant, _⟩ := reachable_content reachable
  obtain ⟨raw, after, inserted, kept, effect⟩ := Raw.insert_effect invariant
    (.insert (keyBytes key) (valueBytes value)) rfl fits
  have applied : (TypedOp.insert key value).apply wyhash map = some (.done, ⟨raw⟩) := by
    simp [TypedOp.apply, insert, PulseMapRaw.insert, inserted]
  have sized : (TypedOp.insert key value).encode.Sized := Raw.sized_insert fits
  refine ⟨raw, inserted, reachable_next reachable sized applied, ?_⟩
  generalize result : RawResult.done = answer at effect
  cases effect with
  | @updated op name text old ttl slot data pool call held =>
      cases call
      refine ⟨_, Raw.cache_bind invariant kept (Raw.stamp_at _ _ · _ · _) rfl rfl, fun _ => ?_⟩
      rw [held]
      exact ⟨rfl, rfl, rfl⟩
  | @placed op name text ttl slot isEviction data pool call missing target full =>
      cases call
      refine ⟨_, Raw.cache_bind invariant kept (Raw.stamp_at _ _ · _ · _) rfl rfl, fun found => ?_⟩
      exact absurd (Raw.cache_absent invariant missing) found
  | missed called hidden => cases result

theorem peek_of_visible (reachable : map.Reachable wyhash)
    (seen : map.raw.cache.visible (keyBytes key) = some (valueBytes value)) :
    map.peek wyhash key = some (some value) := by
  obtain ⟨content, invariant, _⟩ := reachable_content reachable
  rw [peek, Raw.peek_visible invariant, seen]
  exact congrArg some (PulseValue.codec.decodes value)

theorem insert_rebinds (reachable : map.Reachable wyhash) (fits : Fits key value)
    (found : map.stored (keyBytes key) ≠ none) :
    ∃ raw, map.raw.insert wyhash (keyBytes key) (valueBytes value) = some raw ∧
      map.Rebinds wyhash ⟨raw⟩ key value 1 := by
  obtain ⟨raw, inserted, reached, dropped, cache, stays⟩ := insert_binds reachable fits
  obtain ⟨own, len, evictions⟩ := stays found
  refine ⟨raw, inserted, reached, ?_, congrArg Cache.epoch cache, ?_, len, evictions⟩
  · apply peek_of_visible reached
    rw [cache, bind_visible]
  · intro name different
    simp [stored, cache, Cache.bind, own, different]

theorem insert_fills (reachable : map.Reachable wyhash) (fits : Fits key value) :
    ∃ final, map.insert wyhash key value = some final ∧ map.Fills wyhash final key value := by
  obtain ⟨raw, inserted, reached, dropped, cache, stays⟩ := insert_binds reachable fits
  refine ⟨⟨raw⟩, by simp [insert, inserted], reached, ?_, congrArg Cache.epoch cache,
    ⟨dropped, ?_⟩, ?_⟩
  · apply peek_of_visible reached
    rw [cache, bind_visible]
  · intro name different
    simp [stored, cache, Cache.bind, different]
  · intro found name different
    simp [stored, cache, Cache.bind, (stays found).1, different]

theorem remove_deletes (reachable : map.Reachable wyhash)
    (found : map.stored (keyBytes key) ≠ none) :
    ∃ final, map.remove wyhash key = some (true, final) ∧ map.Deletes wyhash final key 0 := by
  obtain ⟨content, invariant, _⟩ := reachable_content reachable
  cases located : slotOf (content (map.raw.bucketOf wyhash (keyBytes key))) (keyBytes key) with
  | none => exact absurd (Raw.cache_absent invariant located) found
  | some slot =>
      obtain ⟨value, held⟩ := slot_of_some located
      obtain ⟨removed, kept⟩ := Raw.remove_spec invariant held
      have cache := Raw.cache_unbind invariant held kept (fun _ _ => rfl) rfl rfl
      have counted := Raw.held_counted invariant held
      have applied : (TypedOp.remove key : TypedOp Key Value).apply wyhash map = some (.removed true,
          ⟨map.raw.removeSlot (map.raw.bucketOf wyhash (keyBytes key)) slot⟩) := by
        simp [TypedOp.apply, remove, removed]
      have sized : (TypedOp.remove key : TypedOp Key Value).encode.Sized := by
        intro name text ttl call
        cases call
      refine ⟨_, by simp [remove, removed], reachable_next reachable sized applied, ?_, ?_, ?_, ?_,
        rfl⟩
      · simp [stored, cache, Cache.unbind]
      · simp
        rfl
      · intro name different
        simp [stored, cache, Cache.unbind, different]
      · change map.raw.count - 1 + 1 = map.raw.count
        omega

/-! ### Chains -/

section Chain

variable {middle : TypedPulseMap Key Value} {fs : List (Value → σ → Value × σ)} {world : σ}

theorem epochs_add (start : Word) (before after : Nat) :
    start + BitVec.ofNat 64 before + BitVec.ofNat 64 after = start + BitVec.ofNat 64 (before + after) := by
  rw [BitVec.add_assoc, BitVec.ofNat_add]

theorem rebinds_same (reachable : map.Reachable wyhash)
    (peeked : map.peek wyhash key = some (some value)) : map.Rebinds wyhash map key value 0 :=
  ⟨reachable, peeked, (BitVec.add_zero _).symm, fun _ _ => rfl, rfl, rfl⟩

theorem rebinds_trans {first second : Value} {before after : Nat}
    (earlier : map.Rebinds wyhash middle key first before)
    (later : middle.Rebinds wyhash final key second after) :
    map.Rebinds wyhash final key second (before + after) where
  reachable := later.reachable
  peeked := later.peeked
  epoch := by rw [later.epoch, earlier.epoch, epochs_add]
  others := fun name different => (later.others name different).trans (earlier.others name different)
  len := later.len.trans earlier.len
  evictions := later.evictions.trans earlier.evictions

theorem deletes_after {before : Nat} (earlier : map.Rebinds wyhash middle key value before)
    (later : middle.Deletes wyhash final key 0) : map.Deletes wyhash final key before where
  reachable := later.reachable
  absent := later.absent
  epoch := by rw [later.epoch, earlier.epoch, epochs_add, Nat.add_zero]
  others := fun name different => (later.others name different).trans (earlier.others name different)
  len := later.len.trans earlier.len
  evictions := later.evictions.trans earlier.evictions

theorem chain_occupied (fs : List (Value → σ → Value × σ)) (reachable : map.Reachable wyhash)
    (peeked : map.peek wyhash key = some (some value)) (fitting : Fitting key fs (value, world)) :
    ∃ last : OccupiedEntry Key Value,
      (Entry.occupied ⟨map, key, value⟩).andModifyAll wyhash fs world =
          some (.occupied last, (modified fs (value, world)).2) ∧
        last.key = key ∧ last.value = (modified fs (value, world)).1 ∧
        map.Rebinds wyhash last.map key last.value fs.length := by
  induction fs generalizing map value world with
  | nil => exact ⟨⟨map, key, value⟩, rfl, rfl, rfl, rebinds_same reachable peeked⟩
  | cons f rest induction =>
      obtain ⟨fits, remaining⟩ := fitting
      obtain ⟨raw, inserted, rebinds⟩ :=
        insert_rebinds reachable fits (stored_of_peek reachable peeked)
      obtain ⟨last, chained, sameKey, copy, later⟩ :=
        induction rebinds.reachable rebinds.peeked remaining
      refine ⟨last, ?_, sameKey, copy, ?_⟩
      · simp only [Entry.andModifyAll, Entry.andModify, inserted]
        exact chained
      · rw [List.length_cons, Nat.add_comm]
        exact rebinds_trans rebinds later

theorem chain_vacant (entry : VacantEntry Key Value) (fs : List (Value → σ → Value × σ)) (world : σ) :
    (Entry.vacant entry).andModifyAll wyhash fs world = some (.vacant entry, world) := by
  induction fs with
  | nil => rfl
  | cons f rest induction => exact induction

theorem entry_of_peek (reachable : map.Reachable wyhash) {found : Option Value}
    (peeked : map.peek wyhash key = some found) :
    map.entry wyhash key = some (match found with
      | some value => .occupied ⟨map, key, value⟩
      | none => .vacant ⟨map, key⟩) := by
  obtain ⟨same, bytes, again⟩ := peek_encoded reachable key
  obtain rfl : same = found := Option.some.inj (again.symm.trans peeked)
  cases same with
  | none => simp [entry, bytes]
  | some value =>
      have decoded : PulseValue.codec.fromBytes (valueBytes value) = some value :=
        PulseValue.codec.decodes value
      simp [entry, bytes, decoded]

theorem occupied_updates (reachable : map.Reachable wyhash)
    (peeked : map.peek wyhash key = some (some value)) (fitting : Fitting key fs (value, world)) :
    ∃ last, map.UpdatesInPlace wyhash key fs world value last := by
  obtain ⟨last, chained, sameKey, copy, rebinds⟩ := chain_occupied fs reachable peeked fitting
  have found := stored_of_peek rebinds.reachable rebinds.peeked
  refine ⟨last, ?_, copy, rebinds, fun _ => rfl, fun _ _ => rfl, ?_, ?_⟩
  · rw [chain, entry_of_peek reachable peeked]
    exact chained
  · obtain ⟨removed, result, deletes⟩ := remove_deletes rebinds.reachable found
    exact ⟨removed, by simp [OccupiedEntry.remove, sameKey, result], deletes_after rebinds deletes⟩
  · intro other fits
    obtain ⟨raw, inserted, again⟩ := insert_rebinds rebinds.reachable fits found
    exact ⟨⟨raw⟩, by simp [OccupiedEntry.insert, sameKey, TypedPulseMap.insert, inserted],
      rebinds_trans rebinds again⟩

theorem vacant_fills (reachable : map.Reachable wyhash)
    (peeked : map.peek wyhash key = some none) (fs : List (Value → σ → Value × σ)) (world : σ) :
    map.FillsVacancy wyhash key fs world ⟨map, key⟩ where
  chained := by
    rw [chain, entry_of_peek reachable peeked]
    exact chain_vacant ⟨map, key⟩ fs world
  orInsert := fun _ fits => insert_fills reachable fits
  orInsertWith := by
    intro f after fits
    obtain ⟨final, inserted, fills⟩ := insert_fills reachable fits
    exact ⟨final, by simp [Entry.orInsertWith, inserted], fills⟩
  insert := fun _ fits => insert_fills reachable fits

end Chain

theorem entry_chain_is_one_update (reachable : map.Reachable wyhash) (key : Key) :
    ∃ found, map.peek wyhash key = some found ∧
      ∀ {σ : Type} (fs : List (Value → σ → Value × σ)) (world : σ),
        (∀ value, found = some value → Fitting key fs (value, world) →
          ∃ last, map.UpdatesInPlace wyhash key fs world value last) ∧
        (found = none → ∃ last, map.FillsVacancy wyhash key fs world last) := by
  obtain ⟨found, _, peeked⟩ := peek_encoded reachable key
  refine ⟨found, peeked, ?_⟩
  intro σ fs world
  constructor
  · intro value present fitting
    rw [present] at peeked
    exact occupied_updates reachable peeked fitting
  · intro absent
    rw [absent] at peeked
    exact ⟨_, vacant_fills reachable peeked fs world⟩

theorem entry_chain_is_one_update_crowded :
    let ops : List (TypedOp UInt32 UInt32) :=
      [.insert 1 10, .insert 2 20, .insert 3 30, .insert 4 40, .insert 1 11, .remove 2, .insert 5 50,
        .insert 6 60]
    ∃ map : TypedPulseMap UInt32 UInt32, TypedOp.run (fun _ => 0) (new 1) ops = some map ∧
      ∃ found, map.peek (fun _ => 0) (1 : UInt32) = some found ∧
        ∀ {σ : Type} (fs : List (UInt32 → σ → UInt32 × σ)) (world : σ),
          (∀ value, found = some value → Fitting (1 : UInt32) fs (value, world) →
            ∃ last, map.UpdatesInPlace (fun _ => 0) (1 : UInt32) fs world value last) ∧
          (found = none → ∃ last, map.FillsVacancy (fun _ => 0) (1 : UInt32) fs world last) := by
  intro ops
  have sized : ∀ op ∈ ops, op.encode.Sized := by
    have small : ∀ op ∈ ops, ∀ pair ∈ op.encode.insertion,
        pair.1.length + pair.2.1.length < 2 ^ 32 := by decide
    exact fun op member key value ttl inserts => small op member _ inserts
  obtain ⟨last, after, ran, _⟩ := Raw.run_encoded ops sized
    (Raw.new_invariant (fun _ => 0) 1 (by norm_num)) encoded_empty
  exact ⟨⟨last⟩, ran, entry_chain_is_one_update ⟨1, by norm_num, _, sized, ran⟩ 1⟩

end TypedPulseMap

end PulseMap
