import PulseMap.Raw.Placement

/-!
Scan resistance. While only new keys are inserted, each placement leaves an entry of
frequency 0 behind, and the next placement in that bucket takes a vacant slot, an
expired one or one of frequency 0. So a bucket loses at most the one entry that was
evicted when it held nothing but entries in use.
-/

namespace PulseMap

def Unlimited (ttl : Word) : Prop := ttl = 0#64 ∨ ttl = BitVec.allOnes 64

def RawOp.Unlimited : RawOp → Prop
  | insertTtl _ _ ttl => PulseMap.Unlimited ttl
  | setTtl ttl => PulseMap.Unlimited ttl
  | _ => True

namespace Raw

open MetaWord

variable {wyhash : Bytes → Word} {map : PulseMapRaw} {content : Nat → Content}

/-! ### Runs without a finite ttl -/

structure Timeless (map : PulseMapRaw) (content : Nat → Content) : Prop where
  default : Unlimited map.defaultTtl
  stamps : ∀ bucket slot, (content bucket slot).isSome → Unlimited (map.ttlAt bucket slot).ttl

theorem unlimited_live (stamp : SlotTTL) {defaultTtl : Word} (own : Unlimited stamp.ttl)
    (default : Unlimited defaultTtl) (epoch : Word) : stamp.expired defaultTtl epoch = false := by
  have effective : Unlimited (stamp.effectiveTtl defaultTtl) := by
    unfold SlotTTL.effectiveTtl
    split_ifs
    · exact default
    · exact own
  simp only [SlotTTL.expired]
  exact if_pos effective

theorem unlimited_insertion {op : RawOp} {key value : Bytes} {ttl : Word}
    (call : op.insertion = some (key, value, ttl)) (unlimited : op.Unlimited) : Unlimited ttl := by
  cases op <;> simp only [RawOp.insertion, Option.some.injEq, Prod.mk.injEq, reduceCtorEq] at call
  · rw [← call.2.2]
    exact Or.inl rfl
  · rw [← call.2.2]
    exact unlimited

theorem timeless_write {next : PulseMapRaw} {bucket : Nat} {slot : Fin 4}
    {entry : Option (Bytes × Bytes)} {epoch ttl : Word} (timeless : Timeless map content)
    (unlimited : Unlimited ttl)
    (stamps : ∀ other place, next.ttlAt other place =
      if other = bucket ∧ place = slot then ⟨epoch, ttl⟩ else map.ttlAt other place)
    (default : next.defaultTtl = map.defaultTtl) :
    Timeless next (writeAt content bucket slot entry) := by
  refine ⟨default ▸ timeless.default, ?_⟩
  intro other place present
  rw [stamps]
  rw [write_at_apply] at present
  split_ifs at present ⊢ with here
  · exact unlimited
  · exact timeless.stamps other place present

theorem effect_timeless {op : RawOp} {result : RawResult} {next : PulseMapRaw}
    {after : Nat → Content} (timeless : Timeless map content) (unlimited : op.Unlimited)
    (effect : Effect wyhash map content op result next after) : Timeless next after := by
  cases effect with
  | updated call held =>
      exact timeless_write timeless (unlimited_insertion call unlimited) (stamp_at _ _ · _ · _) rfl
  | placed call missing target full =>
      exact timeless_write timeless (unlimited_insertion call unlimited) (stamp_at _ _ · _ · _) rfl
  | hit held live => exact ⟨timeless.default, timeless.stamps⟩
  | peeked held live => exact timeless
  | missed call hidden => exact timeless
  | @removed key value slot held =>
      refine ⟨timeless.default, ?_⟩
      intro other place present
      rw [write_at_apply] at present
      split_ifs at present with here
      · cases present
      · exact timeless.stamps other place present
  | unremoved missing => exact timeless
  | retuned ttl => exact ⟨unlimited, timeless.stamps⟩

theorem new_timeless (numBuckets : Nat) :
    Timeless (PulseMapRaw.new numBuckets) fun _ _ => none := by
  refine ⟨Or.inl rfl, ?_⟩
  intro bucket slot present
  cases present

theorem run_timeless (ops : List RawOp) (sized : ∀ op ∈ ops, op.Sized)
    (unlimited : ∀ op ∈ ops, op.Unlimited) (invariant : Invariant wyhash map content)
    (timeless : Timeless map content) :
    ∃ last after, RawOp.run wyhash map ops = some last ∧ Invariant wyhash last after ∧
      Timeless last after := by
  induction ops generalizing map content with
  | nil => exact ⟨map, content, rfl, invariant, timeless⟩
  | cons op rest induction =>
      obtain ⟨result, next, after, applied, kept, effect⟩ :=
        apply_effect invariant op (sized op (by simp))
      obtain ⟨last, final, ran, holds, still⟩ := induction
        (fun other member => sized other (by simp [member]))
        (fun other member => unlimited other (by simp [member])) kept
        (effect_timeless timeless (unlimited op (by simp)) effect)
      exact ⟨last, final, by simp [RawOp.run, applied, ran], holds, still⟩

/-! ### Scans -/

def insertedKeys (ops : List RawOp) : List Bytes :=
  ops.filterMap fun op => op.insertion.map fun pair => pair.1

/-- Inserts of pairwise distinct keys, none of them stored yet. -/
structure IsScan (map : PulseMapRaw) (scan : List RawOp) : Prop where
  inserts : ∀ op ∈ scan, op.insertion.isSome
  distinct : (insertedKeys scan).Nodup
  absent : ∀ key ∈ insertedKeys scan, map.cache.entries key = none

/-- The slot holds an entry of frequency at least 1. -/
def Hot (map : PulseMapRaw) (bucket : Nat) (slot : Fin 4) (key : Bytes) (entry : CacheEntry) : Prop :=
  map.slotEntry bucket slot = some (key, entry) ∧ 1 ≤ frequency (priorityAt map bucket slot)

/-- The bucket has a slot that is not Full or holds an entry of frequency 0. -/
def HasCold (map : PulseMapRaw) (bucket : Nat) : Prop :=
  ∃ slot, (map.buckets bucket).metaWord.getState slot ≠ .full ∨
    frequency (priorityAt map bucket slot) = 0

def LosesHot (map last : PulseMapRaw) (bucket : Nat) (slot : Fin 4) : Prop :=
  ∃ key entry, Hot map bucket slot key entry ∧ last.cache.entries key ≠ some entry

/-- The state of one bucket during a scan from `start`: every entry in use is still
there, but for at most one, and the bucket has a cold slot once that one is gone. -/
structure Scanned (start map : PulseMapRaw) (bucket : Nat) (victim : Option (Fin 4)) : Prop where
  retained : ∀ slot key entry, some slot ≠ victim → Hot start bucket slot key entry →
    Hot map bucket slot key entry ∧ Unlimited entry.ttl
  cooled : victim ≠ none → HasCold map bucket
  cold : HasCold start bucket → victim = none ∧ HasCold map bucket

theorem frequency_eighth (prio : Byte) (small : prio < 128#8) : frequency prio = prio.toNat / 8 := by
  revert prio
  decide +kernel

theorem priority_small (map : PulseMapRaw) (bucket : Nat) (slot : Fin 4) :
    priorityAt map bucket slot < 128#8 := by
  have bound := (BitField.get (map.buckets bucket).metaWord.word (prioShift slot) 7).isLt
  rw [priorityAt, MetaWord.getPriority, prio_bits_eq]
  simp only [BitVec.lt_def, BitVec.toNat_setWidth]
  exact Nat.lt_of_le_of_lt (Nat.mod_le _ _) bound

theorem frequency_le {bucket : Nat} {slot other : Fin 4}
    (le : priorityAt map bucket slot ≤ priorityAt map bucket other) :
    frequency (priorityAt map bucket slot) ≤ frequency (priorityAt map bucket other) := by
  rw [frequency_eighth _ (priority_small map bucket slot),
    frequency_eighth _ (priority_small map bucket other)]
  exact Nat.div_le_div_right (BitVec.le_def.mp le)

theorem hot_full {bucket : Nat} {slot : Fin 4} {key : Bytes} {entry : CacheEntry}
    (hot : Hot map bucket slot key entry) :
    (map.buckets bucket).metaWord.getState slot = .full := by
  by_contra vacant
  have held := hot.1
  simp [PulseMapRaw.slotEntry, vacant] at held

theorem slot_entry_ttl (invariant : Invariant wyhash map content) {bucket : Nat} {slot : Fin 4}
    {key : Bytes} {entry : CacheEntry} (held : map.slotEntry bucket slot = some (key, entry)) :
    ∃ value, content bucket slot = some (key, value) ∧ entry = stamped map bucket slot value := by
  rw [slot_entry_eq invariant] at held
  obtain ⟨⟨stored, value⟩, present, same⟩ := Option.map_eq_some_iff.mp held
  cases same
  exact ⟨value, present, rfl⟩

/-- An entry in use is the target of a placement only when its bucket is not cold. -/
theorem hot_not_target (invariant : Invariant wyhash map content)
    (default : Unlimited map.defaultTtl) {bucket : Nat} {slot : Fin 4} {key : Bytes}
    {entry : CacheEntry} (hot : Hot map bucket slot key entry) (unlimited : Unlimited entry.ttl)
    (cold : HasCold map bucket) : ¬PolicyTarget map.tick bucket slot := by
  have full := hot_full hot
  obtain ⟨value, _, rfl⟩ := slot_entry_ttl invariant hot.1
  rintro (⟨reusable, _⟩ | ⟨busy, minimal⟩)
  · rcases reusable with vacant | expired
    · exact vacant full
    · have live : map.tick.isExpired bucket slot = false :=
        unlimited_live (map.ttlAt bucket slot) unlimited default _
      rw [live] at expired
      cases expired
  · obtain ⟨other, vacant | unused⟩ := cold
    · exact busy other (Or.inl vacant)
    · have le : priorityAt map bucket slot ≤ priorityAt map bucket other := (minimal other).1
      have least := frequency_le le
      have used := hot.2
      omega

theorem places_scanned (invariant : Invariant wyhash map content) {start next : PulseMapRaw}
    (default : Unlimited map.defaultTtl) {key value : Bytes} {ttl : Word} {target : Fin 4}
    (places : Places wyhash map next key value ttl target) {bucket : Nat} {victim : Option (Fin 4)}
    (scanned : Scanned start map bucket victim) : ∃ victim, Scanned start next bucket victim := by
  by_cases here : bucket = map.bucketOf wyhash key
  · subst here
    have cooled : HasCold next (map.bucketOf wyhash key) := by
      refine ⟨target, Or.inr ?_⟩
      rw [places.priority]
      decide
    have retained : ∀ slot name entry, slot ≠ target →
        Hot map (map.bucketOf wyhash key) slot name entry →
        Hot next (map.bucketOf wyhash key) slot name entry := by
      intro slot name entry different hot
      obtain ⟨kept, priority⟩ := places.others (map.bucketOf wyhash key) slot
        (fun same => different (congrArg Prod.snd same))
      refine ⟨?_, ?_⟩
      · rw [kept.entry]
        exact hot.1
      · rw [priority]
        exact hot.2
    by_cases cold : HasCold map (map.bucketOf wyhash key)
    · refine ⟨victim, ?_, fun _ => cooled, fun was => ⟨(scanned.cold was).1, cooled⟩⟩
      intro slot name entry spared hot
      obtain ⟨still, unlimited⟩ := scanned.retained slot name entry spared hot
      have different : slot ≠ target := by
        rintro rfl
        exact hot_not_target invariant default still unlimited cold places.policy
      exact ⟨retained slot name entry different still, unlimited⟩
    · -- every slot is in use, so nothing has been lost yet and one entry is lost now
      have none : victim = none := by
        by_contra lost
        exact cold (scanned.cooled lost)
      refine ⟨some target, ?_, fun _ => cooled, fun was => absurd (scanned.cold was).2 cold⟩
      intro slot name entry spared hot
      obtain ⟨still, unlimited⟩ := scanned.retained slot name entry (by simp [none]) hot
      exact ⟨retained slot name entry (fun same => spared (by rw [same])) still, unlimited⟩
  · have kept : ∀ slot, SlotKept map next bucket slot ∧
        priorityAt next bucket slot = priorityAt map bucket slot :=
      fun slot => places.others bucket slot fun same => here (congrArg Prod.fst same)
    have cold : HasCold map bucket → HasCold next bucket := by
      rintro ⟨slot, cold⟩
      refine ⟨slot, ?_⟩
      rw [(kept slot).1.state, (kept slot).2]
      exact cold
    refine ⟨victim, ?_, fun lost => cold (scanned.cooled lost),
      fun was => ⟨(scanned.cold was).1, cold (scanned.cold was).2⟩⟩
    intro slot name entry spared hot
    obtain ⟨still, unlimited⟩ := scanned.retained slot name entry spared hot
    refine ⟨⟨?_, ?_⟩, unlimited⟩
    · rw [(kept slot).1.entry]
      exact still.1
    · rw [(kept slot).2]
      exact still.2

theorem insert_absent (invariant : Invariant wyhash map content) {op : RawOp} {key value : Bytes}
    {ttl : Word} (call : op.insertion = some (key, value, ttl))
    (small : key.length + value.length < 2 ^ 32) :
    ∃ next after, op.apply wyhash map = some (.done, next) ∧ Invariant wyhash next after ∧
      next.defaultTtl = map.defaultTtl ∧
      ∀ name, name ≠ key → map.cache.entries name = none → next.cache.entries name = none := by
  obtain ⟨next, after, inserted, kept, effect⟩ := insert_effect invariant op call small
  refine ⟨next, after, by rw [insert_apply call, inserted]; rfl, kept, ?_⟩
  have step := effect_simulates invariant kept effect
  generalize result : RawResult.done = answer at step
  generalize reached : next.cache = final at step
  cases step with
  | @insert op name text span same dropped =>
      rw [call] at same
      obtain ⟨rfl, rfl, rfl⟩ : key = name ∧ value = text ∧ ttl = span := by simpa using same
      refine ⟨congrArg Cache.defaultTtl reached, ?_⟩
      intro other different absent
      simp [Cache.bind, different, absent]
  | get key => cases result
  | peek key => cases result
  | remove key => cases result
  | setTtl ttl => cases call

theorem run_scanned {start : PulseMapRaw} (scan : List RawOp) (sized : ∀ op ∈ scan, op.Sized)
    (invariant : Invariant wyhash map content) (default : Unlimited map.defaultTtl)
    (isScan : IsScan map scan) (scanned : ∀ bucket, ∃ victim, Scanned start map bucket victim) :
    ∃ last after, RawOp.run wyhash map scan = some last ∧ Invariant wyhash last after ∧
      ∀ bucket, ∃ victim, Scanned start last bucket victim := by
  induction scan generalizing map content with
  | nil => exact ⟨map, content, rfl, invariant, scanned⟩
  | cons op rest induction =>
      obtain ⟨⟨key, value, ttl⟩, call⟩ :=
        Option.isSome_iff_exists.mp (isScan.inserts op (by simp))
      have keys : insertedKeys (op :: rest) = key :: insertedKeys rest := by
        simp [insertedKeys, call]
      have small := sized op (by simp) key value ttl call
      obtain ⟨fresh, distinct⟩ := List.nodup_cons.mp (keys ▸ isScan.distinct)
      have absent := isScan.absent
      rw [keys] at absent
      obtain ⟨next, after, applied, kept, sameDefault, stillAbsent⟩ :=
        insert_absent invariant call small
      obtain ⟨reached, target, again, places, _⟩ :=
        places_by_policy invariant op key value ttl call small
      rw [applied] at again
      obtain rfl : next = reached := by simpa using again
      have restScan : IsScan next rest := by
        refine ⟨fun other member => isScan.inserts other (by simp [member]), distinct, ?_⟩
        intro name member
        exact stillAbsent name (fun same => fresh (same ▸ member)) (absent name (by simp [member]))
      obtain ⟨last, final, ran, holds, done⟩ := induction
        (fun other member => sized other (by simp [member])) kept (sameDefault ▸ default) restScan
        fun bucket => (scanned bucket).elim fun _ state =>
          places_scanned invariant default (places (absent key (by simp))) state
      exact ⟨last, final, by simp [RawOp.run, applied, ran], holds, done⟩

/-- Every scan keeps the entries in use: each bucket loses at most one of them, and none
if it had a slot that was not Full or an entry of frequency 0. -/
def ScanResistant (wyhash : Bytes → Word) (map : PulseMapRaw) : Prop :=
  ∀ scan : List RawOp, (∀ op ∈ scan, op.Sized) → IsScan map scan →
    ∃ last, RawOp.run wyhash map scan = some last ∧ ∀ bucket < map.numBuckets,
      (∀ slot other, LosesHot map last bucket slot → LosesHot map last bucket other →
        slot = other) ∧
      (HasCold map bucket → ∀ slot, ¬LosesHot map last bucket slot)

theorem scan_resistant (invariant : Invariant wyhash map content)
    (timeless : Timeless map content) : ScanResistant wyhash map := by
  intro scan sized isScan
  have start : ∀ bucket, ∃ victim, Scanned map map bucket victim := by
    intro bucket
    refine ⟨none, ?_, fun lost => absurd rfl lost, fun cold => ⟨rfl, cold⟩⟩
    intro slot key entry _ hot
    obtain ⟨value, held, same⟩ := slot_entry_ttl invariant hot.1
    have limit := timeless.stamps bucket slot (by simp [held])
    exact ⟨hot, by rw [same]; exact limit⟩
  obtain ⟨last, after, ran, holds, done⟩ :=
    run_scanned scan sized invariant timeless.default isScan start
  refine ⟨last, ran, ?_⟩
  intro bucket _
  obtain ⟨victim, scanned⟩ := done bucket
  have lostVictim : ∀ slot, LosesHot map last bucket slot → some slot = victim := by
    rintro slot ⟨key, entry, hot, gone⟩
    by_contra spared
    obtain ⟨still, _⟩ := scanned.retained slot key entry spared hot
    obtain ⟨value, held, same⟩ := slot_entry_ttl holds still.1
    exact gone ((cache_entries_iff holds key entry).mpr ⟨bucket, slot, value, held, same⟩)
  refine ⟨?_, ?_⟩
  · intro slot other lost otherLost
    exact Option.some.inj ((lostVictim slot lost).trans (lostVictim other otherLost).symm)
  · intro cold slot lost
    have none := (scanned.cold cold).1
    rw [none] at lostVictim
    cases lostVictim slot lost

theorem raw_scan_resistance (wyhash : Bytes → Word) (numBuckets : Nat)
    (bound : numBuckets ≤ 2 ^ 58) (ops : List RawOp) (sized : ∀ op ∈ ops, op.Sized)
    (unlimited : ∀ op ∈ ops, op.Unlimited) :
    ∃ map, RawOp.run wyhash (PulseMapRaw.new numBuckets) ops = some map ∧
      ScanResistant wyhash map := by
  obtain ⟨map, content, ran, invariant, timeless⟩ := run_timeless ops sized unlimited
    (new_invariant wyhash numBuckets bound) (new_timeless numBuckets)
  exact ⟨map, ran, scan_resistant invariant timeless⟩

theorem raw_scan_resistance_one_hit :
    ∃ map, RawOp.run (fun _ => 0) (PulseMapRaw.new 1) [.insert [1] [2], .get [1]] = some map ∧
      ScanResistant (fun _ => 0) map :=
  raw_scan_resistance (fun _ => 0) 1 (by norm_num) [.insert [1] [2], .get [1]]
    (by
      intro op member
      rcases List.mem_pair.mp member with rfl | rfl
      · exact sized_insert (by norm_num)
      · intro key value ttl call
        cases call)
    (by
      intro op member
      rcases List.mem_pair.mp member with rfl | rfl <;> trivial)

end Raw

end PulseMap
