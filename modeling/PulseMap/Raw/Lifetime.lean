import PulseMap.Raw.Placement
import PulseMap.Raw.Priority

/-!
Visibility as a function of the history. The epoch counts the inserts of the run, so the
age of an entry is the number of inserts since its own last one, and a read hits exactly
while that age is within the entry's ttl and nothing has removed or overwritten it.
-/

namespace PulseMap.Raw

variable {wyhash : Bytes → Word} {map : PulseMapRaw} {content : Nat → Content}

/-- One call of a run, with the other key whose entry it overwrote. -/
structure CallRecord where
  op : RawOp
  displaced : Option Bytes

/-- The key found, before an insert, in the slot that holds the inserted key after it. -/
def displacedBy (wyhash : Bytes → Word) (map next : PulseMapRaw) (op : RawOp) : Option Bytes := do
  let (key, _, _) ← op.insertion
  let event ← eventAt wyhash next false key
  let (held, _) ← map.slotEntry event.bucket event.slot
  if held = key then none else some held

def log (wyhash : Bytes → Word) :
    PulseMapRaw → List CallRecord → List RawOp → Option (PulseMapRaw × List CallRecord)
  | map, history, [] => some (map, history)
  | map, history, op :: rest => do
      let (_, next) ← op.apply wyhash map
      log wyhash next (⟨op, displacedBy wyhash map next op⟩ :: history) rest

/-- A key's last insert, with the number of inserts of any key since. -/
structure Life where
  value : Bytes
  ttl : Word
  age : Nat

/-- The last insert of `key`, unless a removal of it or an overwrite of its slot followed. -/
def life : List CallRecord → Bytes → Option Life
  | [], _ => none
  | record :: earlier, key =>
      match record.op.insertion with
      | some (name, value, ttl) =>
          if name = key then some ⟨value, ttl, 0⟩
          else if record.displaced = some key then none
          else (life earlier key).map fun found => { found with age := found.age + 1 }
      | none =>
          match record.op with
          | .remove name => if name = key then none else life earlier key
          | _ => life earlier key

/-- The ttl set by the last `set_ttl` call, `0` before the first. -/
def defaultOf : List CallRecord → Word
  | [] => 0
  | record :: earlier =>
      match record.op with
      | .setTtl ttl => ttl
      | _ => defaultOf earlier

def clock (history : List CallRecord) : Nat :=
  history.countP fun record => record.op.insertion.isSome

/-- The entry has not outlived its own ttl or, without one, the default. -/
def Life.Lasts (self : Life) (defaultTtl : Word) : Prop :=
  let effective := if self.ttl = 0#64 then defaultTtl else self.ttl
  effective = 0#64 ∨ effective = BitVec.allOnes 64 ∨ self.age ≤ effective.toNat

def Hits (history : List CallRecord) (defaultTtl : Word) (key value : Bytes) : Prop :=
  ∃ found, life history key = some found ∧ found.value = value ∧ found.Lasts defaultTtl

/-! ### The history of a key -/

section History

variable (history : List CallRecord) {op : RawOp} {key value : Bytes} {ttl : Word}

theorem life_insert_own (call : op.insertion = some (key, value, ttl)) (displaced : Option Bytes) :
    life (⟨op, displaced⟩ :: history) key = some ⟨value, ttl, 0⟩ := by
  simp [life, call]

theorem life_insert_other (call : op.insertion = some (key, value, ttl)) {displaced : Option Bytes}
    {name : Bytes} (different : name ≠ key) (spared : displaced ≠ some name) :
    life (⟨op, displaced⟩ :: history) name =
      (life history name).map fun found => { found with age := found.age + 1 } := by
  simp [life, call, Ne.symm different, spared]

theorem life_displaced (call : op.insertion = some (key, value, ttl)) {name : Bytes}
    (different : name ≠ key) : life (⟨op, some name⟩ :: history) name = none := by
  simp [life, call, Ne.symm different]

theorem clock_insert (call : op.insertion = some (key, value, ttl)) (displaced : Option Bytes) :
    clock (⟨op, displaced⟩ :: history) = clock history + 1 := by
  simp [clock, call]

theorem default_insert (call : op.insertion = some (key, value, ttl)) (displaced : Option Bytes) :
    defaultOf (⟨op, displaced⟩ :: history) = defaultOf history := by
  cases op <;> first | rfl | cases call

end History

/-! ### The invariant -/

/-- The epoch is the clock, and every held entry has the life its history gives it. -/
structure Dated (map : PulseMapRaw) (content : Nat → Content) (history : List CallRecord) :
    Prop where
  epoch : map.currentEpoch = BitVec.ofNat 64 (clock history)
  default : map.defaultTtl = defaultOf history
  held : ∀ bucket slot key value, content bucket slot = some (key, value) →
    ∃ age ≤ clock history, life history key = some ⟨value, (map.ttlAt bucket slot).ttl, age⟩ ∧
      (map.ttlAt bucket slot).epoch = BitVec.ofNat 64 (clock history - age)
  gone : ∀ key, (∀ bucket slot value, content bucket slot ≠ some (key, value)) →
    life history key = none

theorem new_dated (numBuckets : Nat) : Dated (PulseMapRaw.new numBuckets) (fun _ _ => none) [] where
  epoch := rfl
  default := rfl
  held := fun _ _ _ _ held => by cases held
  gone := fun _ _ => rfl

theorem dated_quiet {next : PulseMapRaw} {history : List CallRecord} {op : RawOp}
    (dated : Dated map content history) (quiet : op.insertion = none)
    (keeps : ∀ name, op ≠ .remove name) (stamps : next.slotsTtl = map.slotsTtl)
    (epoch : next.currentEpoch = map.currentEpoch)
    (default : next.defaultTtl = defaultOf (⟨op, none⟩ :: history)) :
    Dated next content (⟨op, none⟩ :: history) := by
  have sameClock : clock (⟨op, none⟩ :: history) = clock history := by simp [clock, quiet]
  have sameLife : ∀ key, life (⟨op, none⟩ :: history) key = life history key := by
    intro key
    cases op with
    | remove name => exact absurd rfl (keeps name)
    | insert name value => cases quiet
    | insertTtl name value ttl => cases quiet
    | get name => rfl
    | peek name => rfl
    | setTtl ttl => rfl
  refine ⟨by rw [epoch, sameClock, dated.epoch], default, ?_, ?_⟩
  · intro bucket slot key value held
    rw [sameClock, sameLife]
    simp only [PulseMapRaw.ttlAt, stamps]
    exact dated.held bucket slot key value held
  · intro key absent
    rw [sameLife]
    exact dated.gone key absent

/-- An insert: its own life starts anew, the slot's other key ends, all others age by one. -/
theorem dated_write (before : Invariant wyhash map content) {next : PulseMapRaw}
    {history : List CallRecord} {op : RawOp} {key value : Bytes} {ttl : Word} {slot : Fin 4}
    {displaced : Option Bytes} (dated : Dated map content history)
    (call : op.insertion = some (key, value, ttl))
    (elsewhere : ∀ other place stored, (other, place) ≠ (map.bucketOf wyhash key, slot) →
      content other place ≠ some (key, stored))
    (displaces : ∀ name, name ≠ key → (displaced = some name ↔
      ∃ stored, content (map.bucketOf wyhash key) slot = some (name, stored)))
    (stamps : ∀ other place, next.ttlAt other place =
      if other = map.bucketOf wyhash key ∧ place = slot then ⟨map.currentEpoch + 1, ttl⟩
      else map.ttlAt other place)
    (epoch : next.currentEpoch = map.currentEpoch + 1)
    (default : next.defaultTtl = map.defaultTtl) :
    Dated next (writeAt content (map.bucketOf wyhash key) slot (some (key, value)))
      (⟨op, displaced⟩ :: history) := by
  have ticked : map.currentEpoch + 1 = BitVec.ofNat 64 (clock history + 1) := by
    rw [dated.epoch, BitVec.ofNat_add]
    rfl
  refine ⟨?_, ?_, ?_, ?_⟩
  · rw [epoch, clock_insert history call, ticked]
  · rw [default, default_insert history call, dated.default]
  · intro other place name stored present
    rw [clock_insert history call, stamps]
    rw [write_at_apply] at present
    split_ifs at present ⊢ with here
    · cases present
      exact ⟨0, Nat.zero_le _, life_insert_own history call _, ticked⟩
    · have apart : (other, place) ≠ (map.bucketOf wyhash key, slot) :=
        fun same => here ⟨congrArg Prod.fst same, congrArg Prod.snd same⟩
      have different : name ≠ key := by
        rintro rfl
        exact elsewhere other place stored apart present
      have spared : displaced ≠ some name := by
        intro overwritten
        obtain ⟨again, occupied⟩ := (displaces name different).mp overwritten
        have home := before.home other place name stored present
        rw [before.home _ slot name again occupied] at home
        subst home
        exact here ⟨rfl, before.distinct _ place slot name stored again present occupied⟩
      obtain ⟨age, within, lived, stamp⟩ := dated.held other place name stored present
      refine ⟨age + 1, by omega, ?_, ?_⟩
      · rw [life_insert_other history call different spared, lived]
        rfl
      · rw [stamp, Nat.add_sub_add_right]
  · intro name absent
    have different : name ≠ key := by
      rintro rfl
      exact absent (map.bucketOf wyhash name) slot value (by simp)
    by_cases occupied : ∃ stored, content (map.bucketOf wyhash key) slot = some (name, stored)
    · rw [(displaces name different).mpr occupied]
      exact life_displaced history call different
    · rw [life_insert_other history call different
        fun overwritten => occupied ((displaces name different).mp overwritten)]
      rw [dated.gone name]
      · rfl
      · intro other place stored present
        have apart : ¬(other = map.bucketOf wyhash key ∧ place = slot) := by
          rintro ⟨rfl, rfl⟩
          exact occupied ⟨stored, present⟩
        exact absent other place stored (by rw [write_at_apply, if_neg apart, present])

theorem dated_remove (before : Invariant wyhash map content) {history : List CallRecord}
    {key value : Bytes} {slot : Fin 4} (dated : Dated map content history)
    (held : content (map.bucketOf wyhash key) slot = some (key, value)) :
    Dated (map.removeSlot (map.bucketOf wyhash key) slot)
      (writeAt content (map.bucketOf wyhash key) slot none) (⟨.remove key, none⟩ :: history) := by
  refine ⟨dated.epoch, dated.default, ?_, ?_⟩
  · intro other place name stored present
    rw [write_at_apply] at present
    split_ifs at present with here
    have different : key ≠ name := by
      rintro rfl
      have home := before.home other place key stored present
      subst home
      exact here ⟨rfl, before.distinct _ place slot key stored value present held⟩
    simp only [life, RawOp.insertion, if_neg different]
    exact dated.held other place name stored present
  · intro name absent
    simp only [life, RawOp.insertion]
    split_ifs with same
    · rfl
    · apply dated.gone name
      intro other place stored present
      have apart : ¬(other = map.bucketOf wyhash key ∧ place = slot) := by
        rintro ⟨rfl, rfl⟩
        rw [held] at present
        cases present
        exact same rfl
      exact absent other place stored (by rw [write_at_apply, if_neg apart, present])

/-! ### The calls -/

theorem displaced_by_held {next : PulseMapRaw} (after : Invariant wyhash next content) {op : RawOp}
    {key value : Bytes} {ttl : Word} {slot : Fin 4}
    (call : op.insertion = some (key, value, ttl))
    (held : content (next.bucketOf wyhash key) slot = some (key, value)) :
    displacedBy wyhash map next op =
      (map.slotEntry (next.bucketOf wyhash key) slot).bind fun entry =>
        if entry.1 = key then none else some entry.1 := by
  simp only [displacedBy, call, event_at_held after held, Option.bind_eq_bind, Option.bind_some]

theorem effect_dated (before : Invariant wyhash map content) {op : RawOp} {result : RawResult}
    {next : PulseMapRaw} {after : Nat → Content} {history : List CallRecord}
    (kept : Invariant wyhash next after) (dated : Dated map content history)
    (effect : Effect wyhash map content op result next after) :
    Dated next after (⟨op, displacedBy wyhash map next op⟩ :: history) := by
  cases effect with
  | @updated op key value old ttl slot data pool call held =>
      have stored : writeAt content (map.bucketOf wyhash key) slot (some (key, value))
          (map.bucketOf wyhash key) slot = some (key, value) := by simp
      refine dated_write before dated call ?_ ?_ (stamp_at _ _ · _ · _) rfl rfl
      · intro other place again apart present
        have home := before.home other place key again present
        subst home
        exact apart (by rw [before.distinct _ place slot key again old present held])
      · intro name different
        rw [displaced_by_held kept call stored]
        change ((map.slotEntry (map.bucketOf wyhash key) slot).bind _ = _) ↔ _
        rw [slot_entry_eq before, held]
        simp [Ne.symm different]
  | @placed op key value ttl slot isEviction data pool call missing target full =>
      have stored : writeAt content (map.bucketOf wyhash key) slot (some (key, value))
          (map.bucketOf wyhash key) slot = some (key, value) := by simp
      refine dated_write before dated call ?_ ?_ (stamp_at _ _ · _ · _) rfl rfl
      · intro other place again _ present
        exact absent_everywhere before missing other place again present
      · intro name different
        rw [displaced_by_held kept call stored]
        change ((map.slotEntry (map.bucketOf wyhash key) slot).bind _ = _) ↔ _
        rw [slot_entry_eq before]
        cases present : content (map.bucketOf wyhash key) slot with
        | none => simp
        | some pair =>
            obtain ⟨old, oldValue⟩ := pair
            have other : old ≠ key := by
              rintro rfl
              exact absent_everywhere before missing _ slot oldValue present
            simp [other]
  | @hit key value slot held live =>
      exact dated_quiet dated rfl (fun _ same => by cases same) rfl rfl dated.default
  | @peeked key value slot held live =>
      exact dated_quiet dated rfl (fun _ same => by cases same) rfl rfl dated.default
  | @missed op key call hidden =>
      rcases call with rfl | rfl
      · exact dated_quiet dated rfl (fun _ same => by cases same) rfl rfl dated.default
      · exact dated_quiet dated rfl (fun _ same => by cases same) rfl rfl dated.default
  | @removed key value slot held => exact dated_remove before dated held
  | @unremoved key missing =>
      refine ⟨dated.epoch, dated.default, ?_, ?_⟩
      · intro other place name stored present
        have different : key ≠ name := by
          rintro rfl
          exact absent_everywhere before missing other place stored present
        simp only [life, RawOp.insertion, if_neg different]
        exact dated.held other place name stored present
      · intro name absent
        simp only [life, RawOp.insertion]
        split_ifs
        · rfl
        · exact dated.gone name absent
  | retuned ttl => exact dated_quiet dated rfl (fun _ same => by cases same) rfl rfl rfl

theorem log_dated (ops : List RawOp) (sized : ∀ op ∈ ops, op.Sized) {history : List CallRecord}
    (invariant : Invariant wyhash map content) (dated : Dated map content history) :
    ∃ last after calls, log wyhash map history ops = some (last, calls) ∧
      Invariant wyhash last after ∧ Dated last after calls ∧
      calls.map CallRecord.op = ops.reverse ++ history.map CallRecord.op := by
  induction ops generalizing map content history with
  | nil => exact ⟨map, content, history, rfl, invariant, dated, rfl⟩
  | cons op rest induction =>
      obtain ⟨result, next, after, applied, kept, effect⟩ :=
        apply_effect invariant op (sized op (by simp))
      obtain ⟨last, final, calls, logged, holds, shown, listed⟩ := induction
        (fun other member => sized other (by simp [member])) kept
        (effect_dated invariant kept dated effect)
      exact ⟨last, final, calls, by simp [log, applied, logged], holds, shown, by simp [listed]⟩

/-! ### Reads -/

theorem peek_visible (invariant : Invariant wyhash map content) (key : Bytes) :
    map.peek wyhash key = some (map.cache.visible key) := by
  obtain ⟨result, next, after, applied, kept, effect⟩ :=
    apply_effect invariant (.peek key) (fun _ _ _ call => by cases call)
  have step := effect_simulates invariant kept effect
  cases peeked : map.peek wyhash key with
  | none => simp [RawOp.apply, peeked] at applied
  | some found =>
      simp only [RawOp.apply, peeked, Option.map_some, Option.some.injEq, Prod.mk.injEq] at applied
      rw [← applied.1] at step
      generalize map.cache = cache at step
      generalize next.cache = final at step
      cases step with
      | peek key => rfl

theorem get_visible (invariant : Invariant wyhash map content) (key : Bytes) :
    ∃ next, map.get wyhash key = some (map.cache.visible key, next) := by
  obtain ⟨result, next, after, applied, kept, effect⟩ :=
    apply_effect invariant (.get key) (fun _ _ _ call => by cases call)
  have step := effect_simulates invariant kept effect
  cases got : map.get wyhash key with
  | none => simp [RawOp.apply, got] at applied
  | some answer =>
      obtain ⟨found, reached⟩ := answer
      simp only [RawOp.apply, got, Option.map_some, Option.some.injEq, Prod.mk.injEq] at applied
      refine ⟨reached, ?_⟩
      rw [← applied.1] at step
      generalize map.cache = cache at step
      generalize next.cache = final at step
      cases step with
      | get key => rfl

/-- The wrapped age is the number of inserts, so the expiry test is the age test. -/
theorem expired_iff {stamp : SlotTTL} (value : Bytes) {now age : Nat} (small : now < 2 ^ 64)
    (within : age ≤ now) (epoch : stamp.epoch = BitVec.ofNat 64 (now - age)) (defaultTtl : Word) :
    stamp.expired defaultTtl (BitVec.ofNat 64 now) = false ↔
      (Life.mk value stamp.ttl age).Lasts defaultTtl := by
  have difference : BitVec.ofNat 64 now - stamp.epoch = BitVec.ofNat 64 age := by
    have sum : now = age + (now - age) := by omega
    rw [epoch]
    nth_rewrite 1 [sum]
    rw [BitVec.ofNat_add, BitVec.add_sub_cancel]
  simp only [SlotTTL.expired, SlotTTL.effectiveTtl, Life.Lasts, difference]
  generalize (if stamp.ttl = 0#64 then defaultTtl else stamp.ttl) = effective
  by_cases sentinel : effective = 0#64 ∨ effective = BitVec.allOnes 64
  · rw [if_pos sentinel]
    simp only [true_iff]
    rcases sentinel with zero | ones
    · exact Or.inl zero
    · exact Or.inr (Or.inl ones)
  · rw [if_neg sentinel]
    simp only [decide_eq_false_iff_not, BitVec.not_lt, BitVec.le_def, BitVec.toNat_ofNat,
      Nat.mod_eq_of_lt (Nat.lt_of_le_of_lt within small)]
    constructor
    · intro lasts
      exact Or.inr (Or.inr lasts)
    · rintro (zero | ones | lasts)
      · exact absurd (Or.inl zero) sentinel
      · exact absurd (Or.inr ones) sentinel
      · exact lasts

theorem visible_hits (invariant : Invariant wyhash map content) {history : List CallRecord}
    (dated : Dated map content history) (small : clock history < 2 ^ 64) (key value : Bytes) :
    map.cache.visible key = some value ↔ Hits history map.defaultTtl key value := by
  cases found : slotOf (content (map.bucketOf wyhash key)) key with
  | none =>
      have ended := dated.gone key (absent_everywhere invariant found)
      simp [Cache.visible, cache_absent invariant found, Hits, ended]
  | some slot =>
      obtain ⟨stored, held⟩ := slot_of_some found
      obtain ⟨age, within, lived, stamp⟩ := dated.held _ slot key stored held
      have live := expired_iff stored small within stamp map.defaultTtl
      rw [← dated.epoch] at live
      simp only [Hits, lived, Option.some.injEq, exists_eq_left', ← live]
      simp only [Cache.visible, cache_held invariant held, Cache.Expired]
      change (if (map.ttlAt (map.bucketOf wyhash key) slot).expired map.defaultTtl map.currentEpoch
        then none else some stored) = some value ↔ _
      cases (map.ttlAt (map.bucketOf wyhash key) slot).expired map.defaultTtl map.currentEpoch <;>
        simp

/-- What every read returns, for the current default ttl and for any other one set next. -/
structure ReadsByLife (wyhash : Bytes → Word) (map : PulseMapRaw) (history : List CallRecord) :
    Prop where
  /-- Only inserts advance the epoch. -/
  epoch : map.currentEpoch.toNat = clock history
  get : ∀ key value, (∃ next, map.get wyhash key = some (some value, next)) ↔
    Hits history (defaultOf history) key value
  peek : ∀ key value, map.peek wyhash key = some (some value) ↔
    Hits history (defaultOf history) key value
  retuned : ∀ ttl key value, (map.setTtl ttl).peek wyhash key = some (some value) ↔
    Hits history ttl key value

theorem reads_by_life (invariant : Invariant wyhash map content) {history : List CallRecord}
    (dated : Dated map content history) (small : clock history < 2 ^ 64) :
    ReadsByLife wyhash map history := by
  have visible := visible_hits invariant dated small
  rw [dated.default] at visible
  refine ⟨?_, ?_, ?_, ?_⟩
  · rw [dated.epoch, BitVec.toNat_ofNat, Nat.mod_eq_of_lt small]
  · intro key value
    obtain ⟨next, got⟩ := get_visible invariant key
    rw [← visible key value, got]
    simp
  · intro key value
    rw [← visible key value, peek_visible invariant key, Option.some.injEq]
  · intro ttl key value
    have tuned := set_ttl_invariant invariant ttl
    have redated := effect_dated invariant tuned dated (Effect.retuned ttl)
    rw [peek_visible tuned key, Option.some.injEq]
    exact visible_hits tuned redated small key value

theorem raw_reads_by_life (wyhash : Bytes → Word) (numBuckets : Nat) (bound : numBuckets ≤ 2 ^ 58)
    (ops : List RawOp) (sized : ∀ op ∈ ops, op.Sized)
    (fewer : (ops.countP fun op => op.insertion.isSome) < 2 ^ 64) :
    ∃ map history, log wyhash (PulseMapRaw.new numBuckets) [] ops = some (map, history) ∧
      history.map CallRecord.op = ops.reverse ∧ ReadsByLife wyhash map history := by
  obtain ⟨map, content, history, logged, invariant, dated, listed⟩ := log_dated ops sized
    (new_invariant wyhash numBuckets bound) (new_dated numBuckets)
  have calls : history.map CallRecord.op = ops.reverse := by simpa using listed
  have small : clock history < 2 ^ 64 := by
    have counted : clock history = (history.map CallRecord.op).countP fun op =>
        op.insertion.isSome := by
      rw [List.countP_map]
      rfl
    rw [counted, calls, List.countP_reverse]
    exact fewer
  exact ⟨map, history, logged, calls, reads_by_life invariant dated small⟩

theorem raw_reads_by_life_crowded :
    let ops := crowdedRun ++ [.insertTtl [3] [31] 1#64, .insert [1] [11], .setTtl 5#64,
      .insert [6] [61], .get [3]]
    ∃ map history, log (fun _ => 0) (PulseMapRaw.new 1) [] ops = some (map, history) ∧
      history.map CallRecord.op = ops.reverse ∧ ReadsByLife (fun _ => 0) map history := by
  intro ops
  have small : ∀ op ∈ ops, ∀ pair ∈ op.insertion, pair.1.length + pair.2.1.length < 2 ^ 32 := by
    decide
  exact raw_reads_by_life (fun _ => 0) 1 (by norm_num) ops
    (fun op member key value ttl inserts => small op member _ inserts) (by decide)

end PulseMap.Raw
