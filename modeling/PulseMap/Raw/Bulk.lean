import PulseMap.Library.BoundedSet
import PulseMap.Raw.Counting
import PulseMap.Raw.Table
import PulseMap.Raw.Typed

/-!
`traits.rs`: bulk insertion. While no ttl is finite a bucket evicts only when its four slots
are full, so after a bulk insertion it holds as many keys as it has room for among those it
held before and those that came, whatever order they came in.
-/

namespace PulseMap

def TypedPulseMap.extend {Key Value : Type} [PulseKey Key] [PulseValue Value]
    (wyhash : Bytes → Word) (self : TypedPulseMap Key Value) (iter : List (Key × Value)) :
    Option (TypedPulseMap Key Value) :=
  iter.foldlM (fun map (k, v) => map.insert wyhash k v) self

/-! ### The keys of a bucket -/

def heldKeys (content : Content) : Finset Bytes :=
  ((RawIter.restSlots content 0).map Prod.fst).toFinset

theorem mem_held_keys {content : Content} {key : Bytes} :
    key ∈ heldKeys content ↔ ∃ slot value, content slot = some (key, value) := by
  simp only [heldKeys, RawIter.restSlots, List.drop_zero, List.mem_toFinset, List.mem_map,
    List.mem_filterMap, List.mem_finRange, true_and, Prod.exists, exists_and_right, exists_eq_right]
  exact exists_comm

theorem held_keys_slot {content : Content} {key : Bytes} :
    key ∉ heldKeys content ↔ slotOf content key = none := by
  constructor
  · intro absent
    cases found : slotOf content key with
    | none => rfl
    | some slot =>
        obtain ⟨value, held⟩ := slot_of_some found
        exact absurd (mem_held_keys.mpr ⟨slot, value, held⟩) absent
  · intro missing member
    obtain ⟨slot, value, held⟩ := mem_held_keys.mp member
    exact slot_of_none missing slot value held

theorem held_keys_card {content : Content} (distinct : Distinct content) :
    (heldKeys content).card = (Finset.univ.filter fun slot => (content slot).isSome).card := by
  have names : ((RawIter.restSlots content 0).map Prod.fst).Nodup := by
    rw [RawIter.restSlots, List.drop_zero, List.map_filterMap]
    apply List.Nodup.filterMap _ (List.nodup_finRange 4)
    intro slot other key here there
    obtain ⟨⟨name, value⟩, held, rfl⟩ := Option.map_eq_some_iff.mp here
    obtain ⟨⟨again, otherValue⟩, otherHeld, same⟩ := Option.map_eq_some_iff.mp there
    simp only at same
    subst same
    exact distinct slot other again value otherValue held otherHeld
  rw [heldKeys, List.toFinset_card_of_nodup names, List.length_map, Raw.rest_slots_length,
    Finset.card_filter]

theorem mem_held_keys_write {content : Content} {slot : Fin 4} {key value name : Bytes} :
    name ∈ heldKeys (Function.update content slot (some (key, value))) ↔
      name = key ∨ ∃ place text, place ≠ slot ∧ content place = some (name, text) := by
  rw [mem_held_keys]
  constructor
  · rintro ⟨place, text, held⟩
    by_cases same : place = slot
    · subst same
      rw [Function.update_self] at held
      cases held
      exact Or.inl rfl
    · rw [Function.update_of_ne same] at held
      exact Or.inr ⟨place, text, same, held⟩
  · rintro (rfl | ⟨place, text, different, held⟩)
    · exact ⟨slot, value, by rw [Function.update_self]⟩
    · exact ⟨place, text, by rw [Function.update_of_ne different]; exact held⟩

section Writes

variable {content : Content} {slot : Fin 4} {key value old : Bytes}

theorem admits_update (held : content slot = some (key, old)) :
    Admits 4 (heldKeys content) key (heldKeys (Function.update content slot (some (key, value)))) := by
  have member : key ∈ heldKeys content := mem_held_keys.mpr ⟨slot, old, held⟩
  have same : heldKeys (Function.update content slot (some (key, value))) = heldKeys content := by
    ext name
    rw [mem_held_keys_write]
    constructor
    · rintro (rfl | ⟨place, text, _, stored⟩)
      · exact member
      · exact mem_held_keys.mpr ⟨place, text, stored⟩
    · intro inside
      obtain ⟨place, text, stored⟩ := mem_held_keys.mp inside
      by_cases here : place = slot
      · subst here
        rw [held] at stored
        cases stored
        exact Or.inl rfl
      · exact Or.inr ⟨place, text, here, stored⟩
  rw [same]
  exact .present member

theorem admits_place (distinct : Distinct content) (missing : slotOf content key = none)
    (full : (content slot).isSome → ∀ other, (content other).isSome) :
    Admits 4 (heldKeys content) key (heldKeys (Function.update content slot (some (key, value)))) := by
  have absent := held_keys_slot.mpr missing
  cases held : content slot with
  | none =>
      have next : heldKeys (Function.update content slot (some (key, value))) =
          insert key (heldKeys content) := by
        ext name
        rw [mem_held_keys_write, Finset.mem_insert, mem_held_keys]
        refine or_congr_right ⟨?_, ?_⟩
        · rintro ⟨place, text, _, stored⟩
          exact ⟨place, text, stored⟩
        · rintro ⟨place, text, stored⟩
          refine ⟨place, text, ?_, stored⟩
          rintro rfl
          rw [held] at stored
          cases stored
      rw [next]
      refine .added absent ?_
      rw [held_keys_card distinct]
      refine Finset.card_lt_univ_of_notMem (?_ : slot ∉ _)
      simp [held]
  | some pair =>
      obtain ⟨victim, text⟩ := pair
      have next : heldKeys (Function.update content slot (some (key, value))) =
          insert key ((heldKeys content).erase victim) := by
        ext name
        rw [mem_held_keys_write, Finset.mem_insert, Finset.mem_erase, mem_held_keys]
        refine or_congr_right ⟨?_, ?_⟩
        · rintro ⟨place, other, different, stored⟩
          refine ⟨?_, place, other, stored⟩
          rintro rfl
          exact different (distinct place slot name other text stored held)
        · rintro ⟨different, place, other, stored⟩
          refine ⟨place, other, ?_, stored⟩
          rintro rfl
          rw [held] at stored
          cases stored
          exact different rfl
      rw [next]
      refine .replaced absent (mem_held_keys.mpr ⟨slot, text, held⟩) ?_
      have all : (Finset.univ.filter fun other => (content other).isSome) = Finset.univ :=
        Finset.filter_true_of_mem fun other _ => full (by rw [held]; rfl) other
      rw [held_keys_card distinct, all, Finset.card_univ, Fintype.card_fin]

end Writes

namespace Raw

variable {wyhash : Bytes → Word} {map : PulseMapRaw} {content : Nat → Content} {key value : Bytes}

/-- What one insert without a ttl does while no ttl is finite. -/
structure Inserted (wyhash : Bytes → Word) (map : PulseMapRaw) (content : Nat → Content)
    (key value : Bytes) (slot : Fin 4) (next : PulseMapRaw) : Prop where
  invariant : Invariant wyhash next
    (writeAt content (map.bucketOf wyhash key) slot (some (key, value)))
  timeless : Timeless next (writeAt content (map.bucketOf wyhash key) slot (some (key, value)))
  buckets : next.numBuckets = map.numBuckets
  mask : next.bucketMask = map.bucketMask
  epoch : next.currentEpoch = map.currentEpoch + 1
  admits : Admits 4 (heldKeys (content (map.bucketOf wyhash key))) key
    (heldKeys (Function.update (content (map.bucketOf wyhash key)) slot (some (key, value))))
  counts : slotOf (content (map.bucketOf wyhash key)) key = none →
    next.count + next.evictionCount = map.count + map.evictionCount + 1

theorem target_full (invariant : Invariant wyhash map content) (timeless : Timeless map content)
    {bucket : Nat} {slot : Fin 4} {isEviction : Bool}
    (target : map.tick.chooseTarget bucket = some (slot, isEviction))
    (full : (content bucket slot).isSome) (other : Fin 4) : (content bucket other).isSome := by
  have agrees := invariant.metaAgrees bucket
  simp only [PulseMapRaw.chooseTarget, find_free_timeless invariant timeless] at target
  cases free : (map.buckets bucket).metaWord.findFreeSlot with
  | some first =>
      simp only [free, Option.some.injEq, Prod.mk.injEq] at target
      have notFull := (MetaWord.find_free_slot_some free).1
      rw [target.1] at notFull
      exact absurd ((meta_full_iff agrees slot).mpr full) notFull
  | none => exact (meta_full_iff agrees other).mp (MetaWord.find_free_slot_none.mp free other)

theorem insert_inserted (invariant : Invariant wyhash map content) (timeless : Timeless map content)
    (small : key.length + value.length < 2 ^ 32) :
    ∃ next slot, map.insert wyhash key value = some next ∧
      Inserted wyhash map content key value slot next := by
  obtain ⟨next, after, result, kept, effect⟩ := insert_effect invariant (.insert key value) rfl small
  have unlimited : (RawOp.insert key value).Unlimited := trivial
  have still := effect_timeless timeless unlimited effect
  cases effect with
  | @updated op name text old ttl slot data pool call held =>
      cases call
      refine ⟨_, slot, result, kept, still, rfl, rfl, rfl, admits_update held, ?_⟩
      intro missing
      exact absurd held (slot_of_none missing slot old)
  | @placed op name text ttl slot isEviction data pool call missing target full =>
      cases call
      refine ⟨_, slot, result, kept, still, rfl, rfl, rfl, ?_, fun _ => ?_⟩
      · exact admits_place (invariant.distinct _) missing
          fun present => target_full invariant timeless target present
      · cases isEviction with
        | true =>
            change map.count + (map.evictionCount + 1) = _
            omega
        | false =>
            change map.count + 1 + map.evictionCount = _
            omega

/-! ### One insert after another -/

def arrivals (home : Bytes → Nat) (pairs : List (Bytes × Bytes)) (bucket : Nat) : Finset Bytes :=
  (pairs.map Prod.fst).toFinset.filter fun name => home name = bucket

theorem arrivals_append (home : Bytes → Nat) (past : List (Bytes × Bytes)) (pair : Bytes × Bytes)
    (bucket : Nat) : arrivals home (past ++ [pair]) bucket =
      if home pair.1 = bucket then insert pair.1 (arrivals home past bucket)
      else arrivals home past bucket := by
  ext name
  split_ifs with own
  · simp only [arrivals, List.map_append, List.mem_toFinset, Finset.mem_filter, List.mem_append,
      List.map_cons, List.map_nil, List.mem_singleton, Finset.mem_insert]
    constructor
    · rintro ⟨old | rfl, here⟩
      · exact Or.inr ⟨old, here⟩
      · exact Or.inl rfl
    · rintro (rfl | ⟨old, here⟩)
      · exact ⟨Or.inr rfl, own⟩
      · exact ⟨Or.inl old, here⟩
  · simp only [arrivals, List.map_append, List.mem_toFinset, Finset.mem_filter, List.mem_append,
      List.map_cons, List.map_nil, List.mem_singleton]
    constructor
    · rintro ⟨old | rfl, here⟩
      · exact ⟨old, here⟩
      · exact absurd here own
    · rintro ⟨old, here⟩
      exact ⟨Or.inl old, here⟩

def LastPair (pairs : List (Bytes × Bytes)) (name text : Bytes) : Prop :=
  ∃ past future, pairs = past ++ (name, text) :: future ∧ name ∉ future.map Prod.fst

theorem last_pair_append {past : List (Bytes × Bytes)} {name text : Bytes} {pair : Bytes × Bytes}
    (last : LastPair past name text) (other : pair.1 ≠ name) : LastPair (past ++ [pair]) name text := by
  obtain ⟨front, back, rfl, absent⟩ := last
  refine ⟨front, back ++ [pair], by simp, ?_⟩
  rw [List.map_append, List.mem_append]
  rintro (old | new)
  · exact absent old
  · exact other (List.mem_singleton.mp new).symm

/-- A map after inserts, against the map before them. -/
structure Filled (wyhash : Bytes → Word) (start : PulseMapRaw) (kept : Nat → Content)
    (past : List (Bytes × Bytes)) (map : PulseMapRaw) (content : Nat → Content) : Prop where
  invariant : Invariant wyhash map content
  timeless : Timeless map content
  buckets : map.numBuckets = start.numBuckets
  mask : map.bucketMask = start.bucketMask
  epoch : map.currentEpoch = start.currentEpoch + BitVec.ofNat 64 past.length
  saturates : ∀ bucket, Saturates 4 (heldKeys (content bucket))
    (heldKeys (kept bucket) ∪ arrivals (start.bucketOf wyhash) past bucket)
  values : ∀ bucket slot name text, content bucket slot = some (name, text) →
    LastPair past name text ∨
      name ∉ past.map Prod.fst ∧ ∃ place, kept bucket place = some (name, text)
  counts : (past.map Prod.fst).Nodup →
    (∀ name ∈ past.map Prod.fst, slotOf (kept (start.bucketOf wyhash name)) name = none) →
    map.count + map.evictionCount = start.count + start.evictionCount + past.length

variable {start : PulseMapRaw} {kept : Nat → Content} {past : List (Bytes × Bytes)}

theorem filled_start (invariant : Invariant wyhash map content) (timeless : Timeless map content) :
    Filled wyhash map content [] map content where
  invariant := invariant
  timeless := timeless
  buckets := rfl
  mask := rfl
  epoch := (BitVec.add_zero _).symm
  saturates := by
    intro bucket
    have small : (heldKeys (content bucket)).card ≤ 4 := by
      rw [held_keys_card (invariant.distinct bucket)]
      exact Finset.card_le_univ _
    have same : heldKeys (content bucket) ∪ arrivals (map.bucketOf wyhash) [] bucket =
        heldKeys (content bucket) := by
      simp [arrivals]
    rw [same]
    exact saturates_refl small
  values := fun bucket slot name text held => Or.inr ⟨List.not_mem_nil, slot, held⟩
  counts := fun _ _ => rfl

theorem filled_home (filled : Filled wyhash start kept past map content) (name : Bytes) :
    map.bucketOf wyhash name = start.bucketOf wyhash name := by
  rw [PulseMapRaw.bucketOf, PulseMapRaw.bucketOf, filled.mask]

theorem filled_absent (filled : Filled wyhash start kept past map content) {name : Bytes}
    (missing : slotOf (kept (start.bucketOf wyhash name)) name = none)
    (new : name ∉ past.map Prod.fst) :
    slotOf (content (map.bucketOf wyhash name)) name = none := by
  rw [filled_home filled]
  refine held_keys_slot.mp fun member => ?_
  rcases Finset.mem_union.mp ((filled.saturates _).subset member) with old | came
  · exact held_keys_slot.mpr missing old
  · rw [arrivals, Finset.mem_filter, List.mem_toFinset] at came
    exact new came.1

theorem filled_insert (filled : Filled wyhash start kept past map content) {slot : Fin 4}
    {next : PulseMapRaw} (inserted : Inserted wyhash map content key value slot next) :
    Filled wyhash start kept (past ++ [(key, value)]) next
      (writeAt content (map.bucketOf wyhash key) slot (some (key, value))) where
  invariant := inserted.invariant
  timeless := inserted.timeless
  buckets := inserted.buckets.trans filled.buckets
  mask := inserted.mask.trans filled.mask
  epoch := by
    rw [inserted.epoch, filled.epoch, List.length_append, List.length_singleton, BitVec.ofNat_add,
      BitVec.add_assoc]
    rfl
  saturates := by
    intro bucket
    rw [arrivals_append]
    have home := filled_home filled key
    by_cases own : start.bucketOf wyhash key = bucket
    · subst own
      rw [if_pos rfl, Finset.union_insert, home, write_at_same]
      have admits := inserted.admits
      rw [home] at admits
      exact (filled.saturates _).admits admits
    · rw [if_neg own, write_at_other (by rw [home]; exact Ne.symm own)]
      exact filled.saturates bucket
  values := by
    intro bucket place name text held
    by_cases own : name = key
    · subst own
      have here := inserted.invariant.home bucket place name text held
      rw [PulseMapRaw.bucketOf, inserted.mask, ← PulseMapRaw.bucketOf] at here
      subst here
      rw [write_at_same] at held
      have distinct := inserted.invariant.distinct (map.bucketOf wyhash name)
      rw [write_at_same] at distinct
      obtain rfl := distinct place slot name text value held (Function.update_self ..)
      rw [Function.update_self] at held
      cases held
      exact Or.inl ⟨past, [], rfl, List.not_mem_nil⟩
    · rw [write_at_apply] at held
      split_ifs at held with written
      · cases held
        exact absurd rfl own
      · rcases filled.values bucket place name text held with last | ⟨new, old⟩
        · exact Or.inl (last_pair_append last (Ne.symm own))
        · refine Or.inr ⟨?_, old⟩
          simp [new, own]
  counts := by
    intro distinct fresh
    rw [List.map_append, List.nodup_append] at distinct
    have missing := fresh key (by simp)
    have new : key ∉ past.map Prod.fst := fun member =>
      distinct.2.2 key member key (by simp) rfl
    have before := filled.counts distinct.1 fun name member => fresh name (by simp [member])
    rw [inserted.counts (filled_absent filled missing new), before, List.length_append,
      List.length_singleton]
    omega

theorem filled_run (pairs : List (Bytes × Bytes))
    (small : ∀ pair ∈ pairs, pair.1.length + pair.2.length < 2 ^ 32)
    (filled : Filled wyhash start kept past map content) :
    ∃ last after, pairs.foldlM (fun map pair => map.insert wyhash pair.1 pair.2) map = some last ∧
      Filled wyhash start kept (past ++ pairs) last after := by
  induction pairs generalizing past map content with
  | nil => exact ⟨map, content, rfl, by simpa using filled⟩
  | cons pair rest induction =>
      obtain ⟨next, slot, result, inserted⟩ :=
        insert_inserted filled.invariant filled.timeless (small pair (by simp))
      obtain ⟨last, after, ran, holds⟩ := induction
        (fun other member => small other (by simp [member])) (filled_insert filled inserted)
      refine ⟨last, after, ?_, by simpa using holds⟩
      rw [List.foldlM_cons, result]
      exact ran

/-! ### Reads -/

theorem peek_timeless (invariant : Invariant wyhash map content) (timeless : Timeless map content)
    (name text : Bytes) : map.peek wyhash name = some (some text) ↔
      ∃ slot, content (map.bucketOf wyhash name) slot = some (name, text) := by
  rw [peek_visible invariant, Option.some.injEq]
  constructor
  · intro seen
    obtain ⟨entry, found, rfl⟩ := visible_entry seen
    obtain ⟨bucket, slot, value, held, rfl⟩ := (cache_entries_iff invariant name entry).mp found
    have home := invariant.home bucket slot name value held
    exact ⟨slot, by rw [home]; exact held⟩
  · rintro ⟨slot, held⟩
    exact visible_live invariant held (held_live timeless (by rw [held]; rfl) _)

theorem count_held_keys (invariant : Invariant wyhash map content) :
    map.count = ∑ bucket ∈ Finset.range map.numBuckets, (heldKeys (content bucket)).card := by
  rw [invariant.counted, fullPositions, positions, Finset.card_filter, Finset.sum_product]
  apply Finset.sum_congr rfl
  intro bucket _
  rw [held_keys_card (invariant.distinct bucket), Finset.card_filter]

theorem run_unlimited {Key Value : Type} [PulseKey Key] [PulseValue Value]
    (ops : List (TypedOp Key Value)) (sized : ∀ op ∈ ops, op.encode.Sized)
    (unlimited : ∀ op ∈ ops, op.encode.Unlimited) (invariant : Invariant wyhash map content)
    (timeless : Timeless map content) (encoded : Encoded Key Value content) :
    ∃ last after, TypedOp.run wyhash ⟨map⟩ ops = some ⟨last⟩ ∧ Invariant wyhash last after ∧
      Timeless last after ∧ Encoded Key Value after := by
  induction ops generalizing map content with
  | nil => exact ⟨map, content, rfl, invariant, timeless, encoded⟩
  | cons op rest induction =>
      obtain ⟨result, next, after, applied, kept, effect⟩ :=
        apply_effect invariant op.encode (sized op (by simp))
      obtain ⟨last, final, ran, holds⟩ := induction
        (fun other member => sized other (by simp [member]))
        (fun other member => unlimited other (by simp [member])) kept
        (effect_timeless timeless (unlimited op (by simp)) effect) (effect_encoded encoded effect)
      refine ⟨last, final, ?_, holds⟩
      simp [TypedOp.run, TypedOp.apply_encode, applied, ran]

end Raw

/-! ### The typed map -/

def PulseMapRaw.keysIn (self : PulseMapRaw) (bucketIdx : Nat) : Finset Bytes :=
  ((List.finRange 4).filterMap fun slot => (self.slotEntry bucketIdx slot).map Prod.fst).toFinset

section Typed

variable {Key Value : Type} [PulseKey Key] [PulseValue Value]

/-- The last of the pairs with this key has this value. -/
def LastValue (iter : List (Key × Value)) (key : Key) (value : Value) : Prop :=
  ∃ past future, iter = past ++ (key, value) :: future ∧ key ∉ future.map Prod.fst

def crowd (wyhash : Bytes → Word) (map : TypedPulseMap Key Value) (iter : List (Key × Value))
    (bucket : Nat) : Finset Bytes :=
  map.raw.keysIn bucket ∪ Raw.arrivals (map.raw.bucketOf wyhash) (iter.map TypedIter.stored) bucket

/-- A map after a bulk insertion, against the map before it. -/
structure Extends (wyhash : Bytes → Word) (map next : TypedPulseMap Key Value)
    (iter : List (Key × Value)) : Prop where
  /-- Every bucket stores as many keys as it has room for. -/
  keys : ∀ bucket, Saturates 4 (next.raw.keysIn bucket) (crowd wyhash map iter bucket)
  len : next.raw.len =
    ∑ bucket ∈ Finset.range map.raw.numBuckets, min 4 (crowd wyhash map iter bucket).card
  epoch : next.raw.currentEpoch = map.raw.currentEpoch + BitVec.ofNat 64 iter.length
  /-- A read gives the last value that came for the key, or what it gave before. -/
  read : ∀ key value, next.peek wyhash key = some (some value) → LastValue iter key value ∨
    key ∉ iter.map Prod.fst ∧ map.peek wyhash key = some (some value)
  /-- A key of a bucket that was not overfilled is found. -/
  found : ∀ key : Key, keyBytes key ∈ crowd wyhash map iter (map.raw.bucketOf wyhash (keyBytes key)) →
    (crowd wyhash map iter (map.raw.bucketOf wyhash (keyBytes key))).card ≤ 4 →
    ∃ value, next.peek wyhash key = some (some value)

variable {wyhash : Bytes → Word} {map next : PulseMapRaw} {content kept : Nat → Content}
  {iter : List (Key × Value)}

theorem keys_in_held (invariant : Raw.Invariant wyhash map content) (bucket : Nat) :
    map.keysIn bucket = heldKeys (content bucket) := by
  ext name
  rw [mem_held_keys, PulseMapRaw.keysIn, List.mem_toFinset]
  simp only [List.mem_filterMap, List.mem_finRange, true_and, Raw.slot_entry_eq invariant,
    Option.map_map, Option.map_eq_some_iff, Function.comp_apply, Prod.exists, exists_and_right,
    exists_eq_right]

theorem extend_encode (map : PulseMapRaw) (iter : List (Key × Value)) :
    (⟨map⟩ : TypedPulseMap Key Value).extend wyhash iter =
      ((iter.map TypedIter.stored).foldlM (fun (map : PulseMapRaw) pair =>
        map.insert wyhash pair.1 pair.2) map).map TypedPulseMap.mk := by
  induction iter generalizing map with
  | nil => rfl
  | cons pair rest induction =>
      rw [TypedPulseMap.extend, List.foldlM_cons, List.map_cons, List.foldlM_cons]
      simp only [TypedPulseMap.insert, TypedIter.stored]
      cases map.insert wyhash (keyBytes pair.1) (valueBytes pair.2) with
      | none => rfl
      | some raw => exact induction raw

theorem typed_peek (invariant : Raw.Invariant wyhash map content)
    (timeless : Raw.Timeless map content) (key : Key) (value : Value) :
    (⟨map⟩ : TypedPulseMap Key Value).peek wyhash key = some (some value) ↔
      ∃ slot text, content (map.bucketOf wyhash (keyBytes key)) slot = some (keyBytes key, text) ∧
        PulseValue.codec.fromBytes text = some value := by
  rw [TypedPulseMap.peek]
  constructor
  · intro found
    obtain ⟨answer, peeked, same⟩ := Option.bind_eq_some_iff.mp found
    obtain ⟨text, rfl, decoded⟩ := Option.bind_eq_some_iff.mp (Option.some.inj same)
    obtain ⟨slot, held⟩ := (Raw.peek_timeless invariant timeless _ _).mp peeked
    exact ⟨slot, text, held, decoded⟩
  · rintro ⟨slot, text, held, decoded⟩
    have peeked := (Raw.peek_timeless invariant timeless _ _).mpr ⟨slot, held⟩
    simp [peeked, decoded]

/-- Typed pairs have distinct encodings, so the last pair of a key is the last of its bytes. -/
theorem last_pair_typed {key : Key} {text : Bytes}
    (last : Raw.LastPair (iter.map TypedIter.stored) (keyBytes key) text) :
    ∃ value, LastValue iter key value ∧ valueBytes value = text := by
  obtain ⟨past, future, split, absent⟩ := last
  obtain ⟨front, tail, rfl, rfl, second⟩ := List.map_eq_append_iff.mp split
  obtain ⟨⟨name, value⟩, back, rfl, here, rfl⟩ := List.map_eq_cons_iff.mp second
  obtain ⟨sameKey, sameValue⟩ := Prod.mk.inj here
  obtain rfl := PulseKey.codec.to_bytes_injective sameKey
  refine ⟨value, ⟨front, back, rfl, fun member => absent ?_⟩, sameValue⟩
  obtain ⟨pair, inside, same⟩ := List.mem_map.mp member
  rw [List.map_map]
  exact List.mem_map.mpr ⟨pair, inside, by rw [← same]; rfl⟩

theorem filled_extends (before : Raw.Invariant wyhash map kept) (timeless : Raw.Timeless map kept)
    (encoded : Raw.Encoded Key Value kept)
    (filled : Raw.Filled wyhash map kept (iter.map TypedIter.stored) next content) :
    Extends wyhash (⟨map⟩ : TypedPulseMap Key Value) ⟨next⟩ iter := by
  have crowds : ∀ bucket, crowd wyhash (⟨map⟩ : TypedPulseMap Key Value) iter bucket =
      heldKeys (kept bucket) ∪
        Raw.arrivals (map.bucketOf wyhash) (iter.map TypedIter.stored) bucket := by
    intro bucket
    rw [crowd, keys_in_held before]
  have homes := Raw.filled_home filled
  refine ⟨?_, ?_, ?_, ?_, ?_⟩
  · intro bucket
    rw [keys_in_held filled.invariant, crowds]
    exact filled.saturates bucket
  · rw [PulseMapRaw.len, Raw.count_held_keys filled.invariant, filled.buckets]
    refine Finset.sum_congr rfl fun bucket _ => ?_
    rw [crowds]
    exact (filled.saturates bucket).card
  · rw [filled.epoch, List.length_map]
  · intro key value peeked
    obtain ⟨slot, text, held, decoded⟩ :=
      (typed_peek filled.invariant filled.timeless key value).mp peeked
    rcases filled.values _ slot (keyBytes key) text held with last | ⟨new, place, old⟩
    · left
      obtain ⟨stored, here, rfl⟩ := last_pair_typed last
      rw [valueBytes, PulseValue.codec.decodes] at decoded
      rwa [← Option.some.inj decoded]
    · right
      rw [homes] at old
      refine ⟨fun member => new ?_, (typed_peek before timeless key value).mpr
        ⟨place, text, old, decoded⟩⟩
      obtain ⟨pair, inside, rfl⟩ := List.mem_map.mp member
      rw [List.map_map]
      exact List.mem_map.mpr ⟨pair, inside, rfl⟩
  · intro key member fits
    rw [crowds] at member fits
    rw [← (filled.saturates _).all_held fits] at member
    obtain ⟨slot, text, held⟩ := mem_held_keys.mp member
    have decodes : ∃ value : Value, valueBytes value = text := by
      rcases filled.values _ slot (keyBytes key) text held with last | ⟨_, place, old⟩
      · obtain ⟨value, _, same⟩ := last_pair_typed last
        exact ⟨value, same⟩
      · obtain ⟨_, value, _, same⟩ := encoded _ place _ text old
        exact ⟨value, same⟩
    obtain ⟨value, rfl⟩ := decodes
    refine ⟨value, (typed_peek filled.invariant filled.timeless key value).mpr
      ⟨slot, valueBytes value, by rw [homes]; exact held, PulseValue.codec.decodes value⟩⟩

theorem extend_fills_buckets (wyhash : Bytes → Word) (numBuckets : Nat) (bound : numBuckets ≤ 2 ^ 58)
    (ops : List (TypedOp Key Value)) (sized : ∀ op ∈ ops, op.encode.Sized)
    (unlimited : ∀ op ∈ ops, op.encode.Unlimited) (iter : List (Key × Value))
    (small : ∀ pair ∈ iter, (keyBytes pair.1).length + (valueBytes pair.2).length < 2 ^ 32) :
    ∃ map next : TypedPulseMap Key Value,
      TypedOp.run wyhash (TypedPulseMap.new numBuckets) ops = some map ∧
      map.extend wyhash iter = some next ∧ Extends wyhash map next iter := by
  obtain ⟨map, kept, ran, invariant, timeless, encoded⟩ := Raw.run_unlimited ops sized unlimited
    (Raw.new_invariant wyhash numBuckets bound) (Raw.new_timeless numBuckets)
    (show Raw.Encoded Key Value fun _ _ => none from fun _ _ _ _ held => by cases held)
  obtain ⟨next, content, inserted, filled⟩ := Raw.filled_run (iter.map TypedIter.stored)
    (fun pair member => by
      obtain ⟨typed, inside, rfl⟩ := List.mem_map.mp member
      exact small typed inside)
    (Raw.filled_start invariant timeless)
  refine ⟨⟨map⟩, ⟨next⟩, ran, ?_, filled_extends invariant timeless encoded filled⟩
  rw [extend_encode, inserted]
  rfl

/-- A bucket that stores one of the keys gets five more, two of them twice. -/
theorem extend_fills_buckets_overfilled :
    let iter : List (UInt8 × UInt8) := [(3, 4), (1, 3), (4, 5), (3, 6), (5, 7), (6, 8), (7, 9)]
    ∃ map next : TypedPulseMap UInt8 UInt8,
      TypedOp.run (fun _ => 0) (TypedPulseMap.new 1) [.insert 1 2] = some map ∧
      map.extend (fun _ => 0) iter = some next ∧ Extends (fun _ => 0) map next iter ∧
      next.raw.len = 4 := by
  intro iter
  have single : ∀ pair ∈ iter, (keyBytes pair.1).length + (valueBytes pair.2).length < 2 ^ 32 :=
    fun _ _ => show 1 + 1 < 2 ^ 32 by norm_num
  obtain ⟨map, next, ran, extended, filled⟩ := extend_fills_buckets (fun _ => 0) 1 (by norm_num)
    [.insert 1 2]
    (by
      intro op member
      rw [List.mem_singleton.mp member]
      exact Raw.sized_insert (show 1 + 1 < 2 ^ 32 by norm_num))
    (by
      intro op member
      rw [List.mem_singleton.mp member]
      trivial)
    iter single
  have counted : ((TypedOp.run (fun _ => 0) (TypedPulseMap.new 1) [.insert 1 2]).bind fun map =>
      map.extend (fun _ => 0) iter).map (fun next => next.raw.len) = some 4 := by decide +kernel
  rw [ran, Option.bind_some, extended] at counted
  exact ⟨map, next, ran, extended, filled, Option.some.inj counted⟩

end Typed

end PulseMap
