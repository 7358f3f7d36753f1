import PulseMap.Raw.Cache

/-!
Priorities as a function of the history. Each call that places or accesses a key
leaves one event; the priority of a Full slot is the closed form of the accesses to
its key since placement and of the accesses to its neighbours since its last own one.
-/

namespace PulseMap.Raw

open MetaWord

/-- A placement or an access of `key`, at the slot it sits in after the call. -/
structure PriorityEvent where
  placed : Bool
  key : Bytes
  bucket : Nat
  slot : Fin 4
deriving DecidableEq

def eventAt (wyhash : Bytes → Word) (next : PulseMapRaw) (placed : Bool) (key : Bytes) :
    Option PriorityEvent :=
  let bucket := next.bucketOf wyhash key
  ((List.finRange 4).find? fun slot => (next.slotEntry bucket slot).map Prod.fst = some key).map
    fun slot => ⟨placed, key, bucket, slot⟩

/-- The event of one call: a get that returns `Some` and an insert of a stored key are
accesses, an insert of a key that is not stored is a placement, all else is silent. -/
def callEvent (wyhash : Bytes → Word) (map next : PulseMapRaw) (op : RawOp) (result : RawResult) :
    Option PriorityEvent :=
  match op.insertion with
  | some (key, _, _) => eventAt wyhash next (map.cache.entries key).isNone key
  | none =>
      match op, result with
      | .get key, .value (some _) => eventAt wyhash next false key
      | _, _ => none

def trace (wyhash : Bytes → Word) :
    PulseMapRaw → List PriorityEvent → List RawOp → Option (PulseMapRaw × List PriorityEvent)
  | map, history, [] => some (map, history)
  | map, history, op :: rest => do
      let (result, next) ← op.apply wyhash map
      trace wyhash next ((callEvent wyhash map next op result).toList ++ history) rest

/-- Accesses to `key` since it was placed in the slot. -/
def accesses (history : List PriorityEvent) (key : Bytes) (bucket : Nat) (slot : Fin 4) : Nat :=
  (history.takeWhile fun event => event ≠ ⟨true, key, bucket, slot⟩).countP
    fun event => !event.placed && decide (event.key = key)

/-- Accesses to other slots of the bucket since the last access or placement of `key`. -/
def neighbourAccesses (history : List PriorityEvent) (key : Bytes) (bucket : Nat) (slot : Fin 4) :
    Nat :=
  (history.takeWhile fun event => event.key ≠ key).countP
    fun event => !event.placed && decide (event.bucket = bucket ∧ event.slot ≠ slot)

/-- The closed form of the priority fields of one slot. -/
def PriorityIs (history : List PriorityEvent) (key : Bytes) (bucket : Nat) (slot : Fin 4)
    (prio : Byte) : Prop :=
  frequency prio = min 15 (accesses history key bucket slot) ∧
    recency prio =
      (if 0 < accesses history key bucket slot then 7 else 1) -
        neighbourAccesses history key bucket slot

section Counting

variable (history : List PriorityEvent) (key : Bytes) (bucket : Nat) (slot : Fin 4)

theorem accesses_placed :
    accesses (⟨true, key, bucket, slot⟩ :: history) key bucket slot = 0 := by
  simp [accesses]

theorem accesses_own (place : Fin 4) (other : Nat) :
    accesses (⟨false, key, other, place⟩ :: history) key bucket slot =
      accesses history key bucket slot + 1 := by
  simp [accesses]

theorem accesses_foreign (event : PriorityEvent) (foreign : event.key ≠ key) :
    accesses (event :: history) key bucket slot = accesses history key bucket slot := by
  have differs : event ≠ ⟨true, key, bucket, slot⟩ := fun same => foreign (by rw [same])
  simp [accesses, differs, foreign]

theorem neighbour_own (event : PriorityEvent) (own : event.key = key) :
    neighbourAccesses (event :: history) key bucket slot = 0 := by
  simp [neighbourAccesses, own]

theorem neighbour_foreign (event : PriorityEvent) (foreign : event.key ≠ key) :
    neighbourAccesses (event :: history) key bucket slot =
      neighbourAccesses history key bucket slot +
        if event.placed = false ∧ event.bucket = bucket ∧ event.slot ≠ slot then 1 else 0 := by
  simp only [neighbourAccesses, foreign, ne_eq, not_false_eq_true, decide_true,
    List.takeWhile_cons_of_pos, List.countP_cons]
  congr 1
  cases event.placed <;> simp

end Counting

variable {wyhash : Bytes → Word} {map : PulseMapRaw} {content : Nat → Content}

def Prioritised (map : PulseMapRaw) (content : Nat → Content) (history : List PriorityEvent) :
    Prop :=
  ∀ bucket slot key value, content bucket slot = some (key, value) →
    PriorityIs history key bucket slot ((map.buckets bucket).metaWord.getPriority slot)

theorem event_at_held (invariant : Invariant wyhash map content) {key value : Bytes} {slot : Fin 4}
    (held : content (map.bucketOf wyhash key) slot = some (key, value)) (placed : Bool) :
    eventAt wyhash map placed key = some ⟨placed, key, map.bucketOf wyhash key, slot⟩ := by
  have found := slot_of_eq (invariant.distinct _) held
  simp only [eventAt, slot_entry_eq invariant, Option.map_map]
  have same : (fun place => decide (((content (map.bucketOf wyhash key) place).map
      (Prod.fst ∘ fun pair => (pair.1, stamped map (map.bucketOf wyhash key) place pair.2))) =
        some key)) =
      fun place => decide ((content (map.bucketOf wyhash key) place).map Prod.fst = some key) := by
    funext place
    cases content (map.bucketOf wyhash key) place <;> rfl
  rw [same]
  simp only [slotOf] at found
  rw [found]
  rfl

/-- One access to `(bucket, slot)`: the slot's own key gains an access, its Full
neighbours fade, every other slot of the map is as before. -/
theorem access_prioritised {next : PulseMapRaw} {after : Nat → Content}
    {history : List PriorityEvent} {key : Bytes} {bucket : Nat} {slot : Fin 4}
    (invariant : Invariant wyhash map content) (prioritised : Prioritised map content history)
    (home : map.bucketOf wyhash key = bucket)
    {old : Bytes} (held : content bucket slot = some (key, old))
    (sameKeys : ∀ other place, (after other place).map Prod.fst = (content other place).map Prod.fst)
    (words : ∀ other, (next.buckets other).metaWord =
      if other = bucket then (map.buckets bucket).metaWord.onAccess slot
      else (map.buckets other).metaWord) :
    Prioritised next after (⟨false, key, bucket, slot⟩ :: history) := by
  intro other place name value present
  obtain ⟨earlier, stored⟩ : ∃ earlier, content other place = some (name, earlier) := by
    have names := sameKeys other place
    rw [present] at names
    obtain ⟨⟨stored, earlier⟩, found, same⟩ := Option.map_eq_some_iff.mp names.symm
    cases same
    exact ⟨earlier, found⟩
  obtain ⟨frequent, recent⟩ := prioritised other place name earlier stored
  rw [PriorityIs, words]
  by_cases own : name = key
  · subst own
    have sameBucket : other = bucket := by
      rw [← invariant.home other place name earlier stored, home]
    subst sameBucket
    have sameSlot := invariant.distinct other place slot name earlier old stored held
    subst sameSlot
    rw [if_pos rfl, get_priority_on_access, if_pos rfl, frequency_boosted, recency_boosted,
      accesses_own, neighbour_own _ _ _ _ _ rfl, frequent]
    exact ⟨by omega, by simp⟩
  · rw [accesses_foreign _ _ _ _ _ (Ne.symm own), neighbour_foreign _ _ _ _ _ (Ne.symm own)]
    by_cases sameBucket : other = bucket
    · subst sameBucket
      have apart : place ≠ slot := by
        rintro rfl
        rw [stored] at held
        cases held
        exact own rfl
      have full := (meta_full_iff (invariant.metaAgrees other) place).mpr (by simp [stored])
      rw [if_pos rfl, get_priority_on_access, if_neg apart, if_pos full, frequency_faded,
        recency_faded, recent]
      refine ⟨frequent, ?_⟩
      simp only [true_and, ne_eq, Ne.symm apart, not_false_eq_true, if_true]
      omega
    · rw [if_neg sameBucket]
      simp only [Ne.symm sameBucket, false_and, and_false, if_false, Nat.add_zero]
      exact ⟨frequent, recent⟩

/-- A placement at `(bucket, slot)`: the new key starts at frequency 0 and recency 1,
and no other slot's priority moves. -/
theorem place_prioritised {next : PulseMapRaw} {history : List PriorityEvent}
    {key value : Bytes} {bucket : Nat} {slot : Fin 4} {h2 : Byte}
    (absent : ∀ other place stored, content other place ≠ some (key, stored))
    (prioritised : Prioritised map content history)
    (words : ∀ other, (next.buckets other).metaWord =
      if other = bucket then
        (((map.buckets bucket).metaWord.setState slot .full).setH2 slot h2).onInsert slot
      else (map.buckets other).metaWord) :
    Prioritised next (writeAt content bucket slot (some (key, value)))
      (⟨true, key, bucket, slot⟩ :: history) := by
  intro other place name stored present
  rw [PriorityIs, words]
  rw [write_at_apply] at present
  split_ifs at present with here
  · obtain ⟨rfl, rfl⟩ := here
    cases present
    rw [if_pos rfl, accesses_placed, neighbour_own _ _ _ _ _ rfl]
    simp only [get_priority_on_insert, if_true]
    decide
  · have foreign : key ≠ name := by
      rintro rfl
      exact absent other place stored present
    rw [accesses_foreign _ _ _ _ _ foreign, neighbour_foreign _ _ _ _ _ foreign]
    simp only [Bool.true_eq_false, false_and, if_false, Nat.add_zero]
    have old := prioritised other place name stored present
    rw [PriorityIs] at old
    by_cases sameBucket : other = bucket
    · subst sameBucket
      have apart : place ≠ slot := fun same => here ⟨rfl, same⟩
      simpa [apart] using old
    · simpa [sameBucket] using old

theorem effect_prioritised (before : Invariant wyhash map content) {op : RawOp}
    {result : RawResult} {next : PulseMapRaw} {after : Nat → Content}
    {history : List PriorityEvent} (kept : Invariant wyhash next after)
    (prioritised : Prioritised map content history)
    (effect : Effect wyhash map content op result next after) :
    Prioritised next after ((callEvent wyhash map next op result).toList ++ history) := by
  cases effect with
  | @updated op key value old ttl slot data pool call held =>
      have stored : writeAt content (map.bucketOf wyhash key) slot (some (key, value))
          (map.bucketOf wyhash key) slot = some (key, value) := by simp
      have event := event_at_held kept stored false
      have bound : (map.cache.entries key).isNone = false := by simp [cache_held before held]
      simp only [callEvent, call, bound, event]
      apply access_prioritised before prioritised rfl held
      · intro other place
        rw [write_at_apply]
        split_ifs with here
        · rw [here.1, here.2, held]
          rfl
        · rfl
      · intro other
        rw [after_update_bucket]
        split_ifs <;> first | rfl | contradiction
  | @placed op key value ttl slot isEviction data pool call missing target full =>
      have stored : writeAt content (map.bucketOf wyhash key) slot (some (key, value))
          (map.bucketOf wyhash key) slot = some (key, value) := by simp
      have event := event_at_held kept stored true
      have unbound : (map.cache.entries key).isNone = true := by
        simp [cache_absent before missing]
      simp only [callEvent, call, unbound, event]
      apply place_prioritised (absent_everywhere before missing) prioritised
      · intro other
        rw [after_place_bucket]
        split_ifs <;> first | rfl | contradiction
  | @hit key value slot held live =>
      have event := event_at_held kept held false
      simp only [callEvent, RawOp.insertion, event]
      apply access_prioritised before prioritised rfl held (fun _ _ => rfl)
      intro other
      rw [touch_bucket]
      split_ifs <;> rfl
  | peeked held live => exact prioritised
  | missed call hidden =>
      rcases call with rfl | rfl <;> exact prioritised
  | @removed key value slot held =>
      intro other place name stored present
      rw [write_at_apply] at present
      split_ifs at present with here
      have old := prioritised other place name stored present
      rw [remove_slot_bucket]
      split_ifs with same
      · subst same
        simpa [Bucket.tombstone, callEvent, RawOp.insertion] using old
      · exact old
  | unremoved missing => exact prioritised
  | retuned ttl => exact prioritised

theorem trace_prioritised (ops : List RawOp) (sized : ∀ op ∈ ops, op.Sized)
    {history : List PriorityEvent} (invariant : Invariant wyhash map content)
    (prioritised : Prioritised map content history) :
    ∃ last after events, trace wyhash map history ops = some (last, events) ∧
      Invariant wyhash last after ∧ Prioritised last after events := by
  induction ops generalizing map content history with
  | nil => exact ⟨map, content, history, rfl, invariant, prioritised⟩
  | cons op rest induction =>
      obtain ⟨result, next, after, applied, kept, effect⟩ :=
        apply_effect invariant op (sized op (by simp))
      obtain ⟨last, final, events, traced, holds, shown⟩ := induction
        (fun other member => sized other (by simp [member])) kept
        (effect_prioritised invariant kept prioritised effect)
      exact ⟨last, final, events, by simp [trace, applied, traced], holds, shown⟩

theorem raw_priority_closed_form (wyhash : Bytes → Word) (numBuckets : Nat)
    (bound : numBuckets ≤ 2 ^ 58) (ops : List RawOp) (sized : ∀ op ∈ ops, op.Sized) :
    ∃ map history, trace wyhash (PulseMapRaw.new numBuckets) [] ops = some (map, history) ∧
      ∀ bucket < map.numBuckets, ∀ slot key entry,
        map.slotEntry bucket slot = some (key, entry) →
        PriorityIs history key bucket slot ((map.buckets bucket).metaWord.getPriority slot) := by
  have start : Prioritised (PulseMapRaw.new numBuckets) (fun _ _ => none) [] := by
    intro bucket slot key value held
    simp at held
  obtain ⟨map, content, history, traced, invariant, prioritised⟩ :=
    trace_prioritised ops sized (new_invariant wyhash numBuckets bound) start
  refine ⟨map, history, traced, ?_⟩
  intro bucket _ slot key entry found
  rw [slot_entry_eq invariant] at found
  obtain ⟨⟨name, value⟩, held, same⟩ := Option.map_eq_some_iff.mp found
  cases same
  exact prioritised bucket slot name value held

theorem raw_priority_closed_form_one_hit :
    ∃ map history, trace (fun _ => 0) (PulseMapRaw.new 1) [] [.insert [1] [2], .get [1]] =
        some (map, history) ∧
      ∀ bucket < map.numBuckets, ∀ slot key entry,
        map.slotEntry bucket slot = some (key, entry) →
        PriorityIs history key bucket slot ((map.buckets bucket).metaWord.getPriority slot) :=
  raw_priority_closed_form (fun _ => 0) 1 (by norm_num) [.insert [1] [2], .get [1]] (by
    intro op member
    rcases List.mem_pair.mp member with rfl | rfl
    · exact sized_insert (by norm_num)
    · intro key value ttl call
      cases call)

end PulseMap.Raw
