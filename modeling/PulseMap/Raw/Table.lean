import PulseMap.Raw.Scan

/-!
The map without expiry, bucket by bucket. While no ttl is finite, what a call returns and
what it does to a bucket depend only on that bucket's packed word and on the pairs it
holds. `View` is that part of a bucket, `Table` all buckets with the two clocks of a run,
and every call of the raw map is a call of its table. Slab indices and stamps are not
part of it.
-/

namespace PulseMap

structure View where
  word : MetaWord
  held : Content

structure Table where
  views : Nat → View
  evictions : Nat
  epoch : Word

def RawOp.key : RawOp → Option Bytes
  | insert key _ => some key
  | insertTtl key _ _ => some key
  | get key => some key
  | peek key => some key
  | remove key => some key
  | setTtl _ => none

/-- What a call does to its own bucket: the new view, the evictions and the epochs added. -/
structure Outcome where
  result : RawResult
  view : View
  evictions : Nat
  ticks : Word

namespace View

/-- The slot a new key goes to when no slot is expired. -/
def target (self : View) : Option (Fin 4) :=
  match self.word.findFreeSlot with
  | some free => some free
  | none => self.word.findEvictTarget

def update (self : View) (slot : Fin 4) (key value : Bytes) : View :=
  ⟨self.word.onAccess slot, Function.update self.held slot (some (key, value))⟩

def place (self : View) (slot : Fin 4) (h2 : Byte) (key value : Bytes) : View :=
  ⟨((self.word.setState slot .full).setH2 slot h2).onInsert slot,
    Function.update self.held slot (some (key, value))⟩

def insert (self : View) (h2 : Byte) (key value : Bytes) : Outcome :=
  match slotOf self.held key with
  | some slot => ⟨.done, self.update slot key value, 0, 1⟩
  | none =>
      match self.target with
      | some slot => ⟨.done, self.place slot h2 key value, if (self.held slot).isSome then 1 else 0, 1⟩
      | none => ⟨.done, self, 0, 1⟩

def find (self : View) (key : Bytes) : Option Bytes :=
  (slotOf self.held key).bind fun slot => (self.held slot).map Prod.snd

def get (self : View) (key : Bytes) : Outcome :=
  match slotOf self.held key with
  | some slot => ⟨.value (self.find key), ⟨self.word.onAccess slot, self.held⟩, 0, 0⟩
  | none => ⟨.value none, self, 0, 0⟩

def remove (self : View) (key : Bytes) : Outcome :=
  match slotOf self.held key with
  | some slot =>
      ⟨.removed true, ⟨self.word.setState slot .tombstone, Function.update self.held slot none⟩, 0, 0⟩
  | none => ⟨.removed false, self, 0, 0⟩

def act (self : View) (h2 : Byte) : RawOp → Outcome
  | .insert key value => self.insert h2 key value
  | .insertTtl key value _ => self.insert h2 key value
  | .get key => self.get key
  | .peek key => ⟨.value (self.find key), self, 0, 0⟩
  | .remove key => self.remove key
  | .setTtl _ => ⟨.done, self, 0, 0⟩

end View

namespace Table

def absorb (self : Table) (bucket : Nat) (outcome : Outcome) : Table where
  views := Function.update self.views bucket outcome.view
  evictions := self.evictions + outcome.evictions
  epoch := self.epoch + outcome.ticks

variable (home : Bytes → Nat) (h2 : Bytes → Byte)

def outcome (self : Table) (op : RawOp) (key : Bytes) : Outcome :=
  (self.views (home key)).act (h2 key) op

def apply (self : Table) (op : RawOp) : RawResult × Table :=
  match op.key with
  | some key =>
      ((self.outcome home h2 op key).result,
        self.absorb (home key) (self.outcome home h2 op key))
  | none => (.done, self)

theorem absorb_comm (self : Table) {bucket other : Nat} (different : bucket ≠ other)
    (first second : Outcome) :
    (self.absorb bucket first).absorb other second =
      (self.absorb other second).absorb bucket first := by
  simp only [absorb, Table.mk.injEq]
  refine ⟨Function.update_comm different _ _ _, by omega, ?_⟩
  rw [BitVec.add_assoc, BitVec.add_comm first.ticks, BitVec.add_assoc]

theorem absorb_same (self : Table) (bucket : Nat) (result : RawResult) :
    self.absorb bucket ⟨result, self.views bucket, 0, 0⟩ = self := by
  simp [absorb]

theorem outcome_absorb (self : Table) (op : RawOp) {key : Bytes} {bucket : Nat}
    (different : home key ≠ bucket) (other : Outcome) :
    (self.absorb bucket other).outcome home h2 op key = self.outcome home h2 op key := by
  simp only [outcome, absorb, Function.update_of_ne different]

variable {home h2}

theorem apply_keyed (self : Table) {op : RawOp} {key : Bytes} (keyed : op.key = some key) :
    self.apply home h2 op = ((self.outcome home h2 op key).result,
      self.absorb (home key) (self.outcome home h2 op key)) := by
  simp only [apply, keyed]

/-- Calls on different buckets commute, and neither changes the other's result. -/
theorem apply_commute (self : Table) (h2 : Bytes → Byte) {first second : RawOp} {key name : Bytes}
    (firstKey : first.key = some key) (secondKey : second.key = some name)
    (different : home key ≠ home name) :
    ((self.apply home h2 first).2.apply home h2 second).2 =
        ((self.apply home h2 second).2.apply home h2 first).2 ∧
      ((self.apply home h2 first).2.apply home h2 second).1 = (self.apply home h2 second).1 ∧
      ((self.apply home h2 second).2.apply home h2 first).1 = (self.apply home h2 first).1 := by
  simp only [apply_keyed _ firstKey, apply_keyed _ secondKey,
    outcome_absorb home h2 _ _ different, outcome_absorb home h2 _ _ (Ne.symm different)]
  exact ⟨absorb_comm self different _ _, trivial, trivial⟩

end Table

namespace Raw

variable {wyhash : Bytes → Word} {map : PulseMapRaw} {content : Nat → Content}

def table (map : PulseMapRaw) (content : Nat → Content) : Table where
  views := fun bucket => ⟨(map.buckets bucket).metaWord, content bucket⟩
  evictions := map.evictionCount
  epoch := map.currentEpoch

def fingerprint (wyhash : Bytes → Word) (key : Bytes) : Byte := (computeHash wyhash key).h2

theorem held_live (timeless : Timeless map content) {bucket : Nat} {slot : Fin 4}
    (present : (content bucket slot).isSome) (epoch : Word) :
    (map.ttlAt bucket slot).expired map.defaultTtl epoch = false :=
  unlimited_live _ (timeless.stamps bucket slot present) timeless.default epoch

/-- Without expiry the reusable slots are the ones that are not Full. -/
theorem find_free_timeless (invariant : Invariant wyhash map content)
    (timeless : Timeless map content) (bucket : Nat) :
    map.tick.findFreeOrExpired bucket = (map.buckets bucket).metaWord.findFreeSlot := by
  simp only [PulseMapRaw.findFreeOrExpired, MetaWord.findFreeSlot]
  refine congrArg (fun test => List.find? test (List.finRange 4)) ?_
  funext slot
  apply decide_eq_decide.mpr
  constructor
  · rintro (vacant | expired)
    · exact vacant
    · intro full
      have present := (meta_full_iff (invariant.metaAgrees bucket) slot).mp full
      have live : map.tick.isExpired bucket slot = false := held_live timeless present _
      rw [live] at expired
      cases expired
  · intro vacant
    exact Or.inl vacant

theorem choose_target_timeless (invariant : Invariant wyhash map content)
    (timeless : Timeless map content) (bucket : Nat) :
    (map.tick.chooseTarget bucket).map Prod.fst = ((table map content).views bucket).target := by
  simp only [PulseMapRaw.chooseTarget, find_free_timeless invariant timeless, View.target, table]
  cases (map.buckets bucket).metaWord.findFreeSlot with
  | some slot => rfl
  | none =>
      change ((map.buckets bucket).metaWord.findEvictTarget.map _).map _ = _
      cases (map.buckets bucket).metaWord.findEvictTarget <;> rfl

theorem table_absorb {next : PulseMapRaw} {after : Nat → Content} {bucket : Nat} {outcome : Outcome}
    (words : ∀ other, (next.buckets other).metaWord =
      if other = bucket then outcome.view.word else (map.buckets other).metaWord)
    (held : ∀ other, after other = if other = bucket then outcome.view.held else content other)
    (evictions : next.evictionCount = map.evictionCount + outcome.evictions)
    (epoch : next.currentEpoch = map.currentEpoch + outcome.ticks) :
    table next after = (table map content).absorb bucket outcome := by
  simp only [table, Table.absorb, evictions, epoch, Table.mk.injEq, and_true]
  funext other
  rw [words, held]
  by_cases same : other = bucket
  · simp [same]
  · simp [same]

theorem insert_act {op : RawOp} {key value : Bytes} {ttl : Word}
    (call : op.insertion = some (key, value, ttl)) (view : View) (h2 : Byte) :
    op.key = some key ∧ view.act h2 op = view.insert h2 key value := by
  cases op <;> simp only [RawOp.insertion, Option.some.injEq, Prod.mk.injEq, reduceCtorEq] at call
  all_goals
    obtain ⟨rfl, rfl, rfl⟩ := call
    exact ⟨rfl, rfl⟩

/-- Every call of the map is the call of its table. -/
theorem effect_table (before : Invariant wyhash map content) (timeless : Timeless map content)
    {op : RawOp} {result : RawResult} {next : PulseMapRaw} {after : Nat → Content}
    (effect : Effect wyhash map content op result next after) :
    (table map content).apply (map.bucketOf wyhash) (fingerprint wyhash) op =
      (result, table next after) := by
  cases effect with
  | @updated op key value old ttl slot data pool call held =>
      have found := slot_of_eq (before.distinct _) held
      obtain ⟨keyed, acted⟩ := insert_act call ((table map content).views (map.bucketOf wyhash key))
        (fingerprint wyhash key)
      have outcome : (table map content).outcome (map.bucketOf wyhash) (fingerprint wyhash) op key =
          ⟨.done, ((table map content).views (map.bucketOf wyhash key)).update slot key value, 0, 1⟩ := by
        simp only [Table.outcome, acted, View.insert]
        simp only [table, found]
      rw [Table.apply_keyed _ keyed, outcome]
      refine Prod.ext rfl (table_absorb ?_ ?_ rfl rfl).symm
      · intro other
        rw [after_update_bucket]
        split_ifs <;> first | rfl | contradiction
      · intro other
        by_cases same : other = map.bucketOf wyhash key
        · subst same
          simp [View.update, table]
        · simp [same, write_at_other same]
  | @placed op key value ttl slot isEviction data pool call missing target full =>
      obtain ⟨keyed, acted⟩ := insert_act call ((table map content).views (map.bucketOf wyhash key))
        (fingerprint wyhash key)
      have chosen := choose_target_timeless before timeless (map.bucketOf wyhash key)
      rw [target] at chosen
      have outcome : (table map content).outcome (map.bucketOf wyhash) (fingerprint wyhash) op key =
          ⟨.done, ((table map content).views (map.bucketOf wyhash key)).place slot
            (fingerprint wyhash key) key value, if isEviction then 1 else 0, 1⟩ := by
        simp only [Table.outcome, acted, View.insert, ← chosen, Option.map_some, full]
        simp only [table, missing]
        rfl
      rw [Table.apply_keyed _ keyed, outcome]
      refine Prod.ext rfl (table_absorb ?_ ?_ ?_ rfl).symm
      · intro other
        rw [after_place_bucket]
        split_ifs <;> first | rfl | contradiction
      · intro other
        by_cases same : other = map.bucketOf wyhash key
        · subst same
          simp [View.place, table]
        · simp [same, write_at_other same]
      · cases isEviction <;> rfl
  | @hit key value slot held live =>
      have found := slot_of_eq (before.distinct _) held
      have outcome : (table map content).outcome (map.bucketOf wyhash) (fingerprint wyhash)
          (.get key) key = ⟨.value (some value),
            ⟨(map.buckets (map.bucketOf wyhash key)).metaWord.onAccess slot,
              content (map.bucketOf wyhash key)⟩, 0, 0⟩ := by
        simp only [Table.outcome, View.act, View.get, View.find, table, found, Option.bind_some, held,
          Option.map_some]
      rw [Table.apply_keyed _ rfl, outcome]
      refine Prod.ext rfl (table_absorb ?_ ?_ rfl (BitVec.add_zero _).symm).symm
      · intro other
        rw [touch_bucket]
        split_ifs <;> rfl
      · intro other
        by_cases same : other = map.bucketOf wyhash key
        · simp [same]
        · simp [same]
  | @peeked key value slot held live =>
      have found := slot_of_eq (before.distinct _) held
      have outcome : (table map content).outcome (map.bucketOf wyhash) (fingerprint wyhash)
          (.peek key) key = ⟨.value (some value),
            (table map content).views (map.bucketOf wyhash key), 0, 0⟩ := by
        simp only [Table.outcome, View.act, View.find, table, found, Option.bind_some, held,
          Option.map_some]
      rw [Table.apply_keyed _ rfl, outcome, Table.absorb_same]
  | @missed op key call hidden =>
      have missing : slotOf (content (map.bucketOf wyhash key)) key = none := by
        cases found : slotOf (content (map.bucketOf wyhash key)) key with
        | none => rfl
        | some slot =>
            obtain ⟨value, held⟩ := slot_of_some found
            have live := held_live timeless (by rw [held]; rfl) map.currentEpoch
            exact absurd (hidden slot value held) (by rw [PulseMapRaw.isExpired, live]; simp)
      rcases call with rfl | rfl
      · have outcome : (table map content).outcome (map.bucketOf wyhash) (fingerprint wyhash)
            (.get key) key = ⟨.value none,
              (table map content).views (map.bucketOf wyhash key), 0, 0⟩ := by
          simp only [Table.outcome, View.act, View.get, table, missing]
        rw [Table.apply_keyed _ rfl, outcome, Table.absorb_same]
      · have outcome : (table map content).outcome (map.bucketOf wyhash) (fingerprint wyhash)
            (.peek key) key = ⟨.value none,
              (table map content).views (map.bucketOf wyhash key), 0, 0⟩ := by
          simp only [Table.outcome, View.act, View.find, table, missing, Option.bind_none]
        rw [Table.apply_keyed _ rfl, outcome, Table.absorb_same]
  | @removed key value slot held =>
      have found := slot_of_eq (before.distinct _) held
      have outcome : (table map content).outcome (map.bucketOf wyhash) (fingerprint wyhash)
          (.remove key) key = ⟨.removed true,
            ⟨(map.buckets (map.bucketOf wyhash key)).metaWord.setState slot .tombstone,
              Function.update (content (map.bucketOf wyhash key)) slot none⟩, 0, 0⟩ := by
        simp only [Table.outcome, View.act, View.remove, table, found]
      rw [Table.apply_keyed _ rfl, outcome]
      refine Prod.ext rfl (table_absorb ?_ ?_ rfl (BitVec.add_zero _).symm).symm
      · intro other
        rw [remove_slot_bucket]
        split_ifs <;> rfl
      · intro other
        by_cases same : other = map.bucketOf wyhash key
        · subst same
          simp
        · simp [same, write_at_other same]
  | @unremoved key missing =>
      have outcome : (table map content).outcome (map.bucketOf wyhash) (fingerprint wyhash)
          (.remove key) key = ⟨.removed false,
            (table map content).views (map.bucketOf wyhash key), 0, 0⟩ := by
        simp only [Table.outcome, View.act, View.remove, table, missing]
      rw [Table.apply_keyed _ rfl, outcome, Table.absorb_same]
  | retuned ttl => rfl

end Raw

end PulseMap
