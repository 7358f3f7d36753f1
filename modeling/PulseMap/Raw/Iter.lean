import PulseMap.Library.Cursor
import PulseMap.Raw.Cache
import PulseMap.Raw.Typed

/-!
`iter.rs`: the cursors over all Full slots. `rest` lists the pairs a cursor has still to
yield; one call of `next` returns its head and leaves its tail, so a whole iteration
yields exactly the pairs of the Full slots, in slot order.
-/

namespace PulseMap

/-- `slab_key`: the key of a slot in slab mode. -/
def Slot.slabKey (self : Slot) (pool : SlabPool) : Option Bytes := do
  let entry ← pool.get self.slabIdx
  some entry.key

structure RawIter where
  map : PulseMapRaw
  bucketIdx : Nat
  slotIdx : Nat

namespace RawIter

def new (map : PulseMapRaw) : RawIter := ⟨map, 0, 0⟩

def read (self : RawIter) (slot : Fin 4) : Option (Bytes × Bytes) := do
  let data := (self.map.buckets self.bucketIdx).slots slot
  let key ← if data.getMode = 0#8 then some data.inlineKey else data.slabKey self.map.slabPool
  let value ← data.getValue self.map.slabPool
  some (key, value)

/-- The inner loop: the slots of the current bucket from the cursor on. -/
def scanSlots (self : RawIter) : Option (Option (Bytes × Bytes) × RawIter) :=
  if more : self.slotIdx < 4 then
    let advanced := { self with slotIdx := self.slotIdx + 1 }
    if (self.map.buckets self.bucketIdx).metaWord.getState ⟨self.slotIdx, more⟩ = .full then
      (self.read ⟨self.slotIdx, more⟩).map fun pair => (some pair, advanced)
    else advanced.scanSlots
  else some (none, self)
termination_by 4 - self.slotIdx

/-- The outer loop; an outer `none` is a panic of the slab pool. -/
def next (self : RawIter) : Option (Option (Bytes × Bytes) × RawIter) :=
  if self.bucketIdx < self.map.numBuckets then
    match self.scanSlots with
    | none => none
    | some (some pair, advanced) => some (some pair, advanced)
    | some (none, _) => next { self with bucketIdx := self.bucketIdx + 1, slotIdx := 0 }
  else some (none, self)
termination_by self.map.numBuckets - self.bucketIdx

def remaining (self : RawIter) : Nat :=
  4 * (self.map.numBuckets - self.bucketIdx) - min self.slotIdx 4

theorem scan_slots_advances {self advanced : RawIter} {pair : Bytes × Bytes}
    (found : self.scanSlots = some (some pair, advanced)) :
    advanced.map = self.map ∧ advanced.bucketIdx = self.bucketIdx ∧
      self.slotIdx < advanced.slotIdx ∧ advanced.slotIdx ≤ 4 := by
  induction self using scanSlots.induct with
  | case1 self more full =>
      rw [scanSlots, dif_pos more] at found
      simp only [full, if_true, Option.map_eq_some_iff, Prod.mk.injEq] at found
      obtain ⟨_, _, _, rfl⟩ := found
      exact ⟨rfl, rfl, Nat.lt_succ_self _, more⟩
  | case2 self more _ vacant induction =>
      rw [scanSlots, dif_pos more] at found
      simp only [vacant, if_false] at found
      obtain ⟨sameMap, sameBucket, later, bound⟩ := induction found
      exact ⟨sameMap, sameBucket, Nat.lt_of_succ_lt later, bound⟩
  | case3 self done =>
      rw [scanSlots, dif_neg done] at found
      cases found

/-- A call that yields a pair passes at least one slot. -/
theorem next_advances {self advanced : RawIter} {pair : Bytes × Bytes}
    (found : self.next = some (some pair, advanced)) : advanced.remaining < self.remaining := by
  induction self using next.induct with
  | case1 self more panicked =>
      rw [next, if_pos more, panicked] at found
      cases found
  | case2 self more stored reached scanned =>
      rw [next, if_pos more, scanned] at found
      cases found
      obtain ⟨sameMap, sameBucket, later, bound⟩ := scan_slots_advances scanned
      simp only [remaining, sameMap, sameBucket]
      omega
  | case3 self more reached scanned induction =>
      rw [next, if_pos more, scanned] at found
      have passed := induction found
      simp only [remaining] at passed ⊢
      omega
  | case4 self done =>
      rw [next, if_neg done] at found
      cases found

def cursor : Cursor RawIter (Bytes × Bytes) := ⟨next, remaining, next_advances⟩

def toList (self : RawIter) : Option (List (Bytes × Bytes)) := cursor.toList self

/-! ### What a cursor yields -/

variable {wyhash : Bytes → Word} {content : Nat → Content}

def restSlots (content : Content) (slot : Nat) : List (Bytes × Bytes) :=
  ((List.finRange 4).drop slot).filterMap content

def restBuckets (content : Nat → Content) (numBuckets bucket : Nat) : List (Bytes × Bytes) :=
  (List.range' bucket (numBuckets - bucket)).flatMap fun bucket => restSlots (content bucket) 0

/-- The pairs a cursor has still to yield. -/
def rest (self : RawIter) (content : Nat → Content) : List (Bytes × Bytes) :=
  if self.bucketIdx < self.map.numBuckets then
    restSlots (content self.bucketIdx) self.slotIdx ++
      restBuckets content self.map.numBuckets (self.bucketIdx + 1)
  else []

theorem rest_slots_step (content : Content) {slot : Nat} (more : slot < 4) :
    restSlots content slot = (content ⟨slot, more⟩).toList ++ restSlots content (slot + 1) := by
  have split : (List.finRange 4).drop slot = ⟨slot, more⟩ :: (List.finRange 4).drop (slot + 1) := by
    rw [List.drop_eq_getElem_cons (by simpa using more)]
    simp
  rw [restSlots, split, List.filterMap_cons]
  cases content ⟨slot, more⟩ <;> rfl

theorem rest_slots_done (content : Content) {slot : Nat} (done : ¬slot < 4) :
    restSlots content slot = [] := by
  rw [restSlots, List.drop_eq_nil_of_le (by simpa using done)]
  rfl

theorem rest_buckets_step (content : Nat → Content) {numBuckets bucket : Nat}
    (more : bucket < numBuckets) : restBuckets content numBuckets bucket =
      restSlots (content bucket) 0 ++ restBuckets content numBuckets (bucket + 1) := by
  have length : numBuckets - bucket = (numBuckets - (bucket + 1)) + 1 := by omega
  rw [restBuckets, length, List.range'_succ, List.flatMap_cons]
  rfl

/-- A bucket boundary: what is left is the same seen from the next bucket. -/
theorem rest_next_bucket (self : RawIter) (content : Nat → Content)
    (more : self.bucketIdx < self.map.numBuckets)
    (passed : restSlots (content self.bucketIdx) self.slotIdx = []) :
    self.rest content =
      ({ self with bucketIdx := self.bucketIdx + 1, slotIdx := 0 } : RawIter).rest content := by
  simp only [rest, if_pos more, passed, List.nil_append]
  split_ifs with another
  · exact rest_buckets_step content another
  · have none : self.map.numBuckets - (self.bucketIdx + 1) = 0 := by omega
    simp [restBuckets, none]

theorem read_held {self : RawIter} (invariant : Raw.Invariant wyhash self.map content)
    {slot : Fin 4} {pair : Bytes × Bytes} (held : content self.bucketIdx slot = some pair) :
    self.read slot = some pair := by
  have stores : ((self.map.buckets self.bucketIdx).slots slot).Stores wyhash self.map.slabPool
      pair.1 pair.2 := by
    have bytes := invariant.slotAgrees self.bucketIdx slot
    simpa [SlotAgrees, held] using bytes
  have value := Slot.stores_value stores
  rcases stores with ⟨mode, sameKey, _⟩ | ⟨mode, _, _, entry, found, carries⟩
  · simp [read, mode, sameKey, value]
  · have slabMode : ((self.map.buckets self.bucketIdx).slots slot).getMode ≠ 0#8 := by
      rw [mode]
      decide
    simp [read, slabMode, Slot.slabKey, found, carries.1, value]

theorem scan_slots_spec {self : RawIter} (invariant : Raw.Invariant wyhash self.map content) :
    (restSlots (content self.bucketIdx) self.slotIdx = [] ∧
      ∃ passed, self.scanSlots = some (none, passed)) ∨
    ∃ pair slot, self.scanSlots = some (some pair, { self with slotIdx := slot }) ∧
      restSlots (content self.bucketIdx) self.slotIdx =
        pair :: restSlots (content self.bucketIdx) slot := by
  induction self using scanSlots.induct with
  | case1 self more full =>
      have present := (meta_full_iff (invariant.metaAgrees self.bucketIdx) ⟨_, more⟩).mp full
      obtain ⟨pair, held⟩ := Option.isSome_iff_exists.mp present
      refine Or.inr ⟨pair, self.slotIdx + 1, ?_, ?_⟩
      · rw [scanSlots, dif_pos more]
        simp [full, read_held invariant held]
      · rw [rest_slots_step _ more, held]
        rfl
  | case2 self more _ vacant induction =>
      have absent : content self.bucketIdx ⟨self.slotIdx, more⟩ = none := by
        cases held : content self.bucketIdx ⟨self.slotIdx, more⟩ with
        | none => rfl
        | some pair =>
            exact absurd ((meta_full_iff (invariant.metaAgrees self.bucketIdx) _).mpr
              (by simp [held])) vacant
      have skipped : self.scanSlots = ({ self with slotIdx := self.slotIdx + 1 } : RawIter).scanSlots := by
        conv => lhs; rw [scanSlots, dif_pos more]
        simp [vacant]
      have left : restSlots (content self.bucketIdx) self.slotIdx =
          restSlots (content self.bucketIdx) (self.slotIdx + 1) := by
        rw [rest_slots_step _ more, absent]
        rfl
      rw [skipped, left]
      exact induction invariant
  | case3 self done =>
      refine Or.inl ⟨rest_slots_done _ done, self, ?_⟩
      rw [scanSlots, dif_neg done]

theorem mem_rest {self : RawIter} {pair : Bytes × Bytes} (member : pair ∈ self.rest content) :
    ∃ bucket slot, content bucket slot = some pair := by
  rw [rest] at member
  split_ifs at member with more
  · rcases List.mem_append.mp member with here | later
    · obtain ⟨slot, _, held⟩ := List.mem_filterMap.mp here
      exact ⟨self.bucketIdx, slot, held⟩
    · obtain ⟨bucket, _, here⟩ := List.mem_flatMap.mp later
      obtain ⟨slot, _, held⟩ := List.mem_filterMap.mp here
      exact ⟨bucket, slot, held⟩
  · cases member

/-- One call of `next`: the head of what is left is returned, its tail stays. -/
theorem next_spec {self : RawIter} (invariant : Raw.Invariant wyhash self.map content) :
    (self.rest content = [] ∧ ∃ passed, self.next = some (none, passed)) ∨
    ∃ pair advanced, self.next = some (some pair, advanced) ∧ advanced.map = self.map ∧
      self.rest content = pair :: advanced.rest content := by
  induction self using next.induct with
  | case1 self more panicked =>
      rcases scan_slots_spec invariant with ⟨_, _, scanned⟩ | ⟨_, _, scanned, _⟩
      · rw [panicked] at scanned
        cases scanned
      · rw [panicked] at scanned
        cases scanned
  | case2 self more pair advanced scanned =>
      rcases scan_slots_spec invariant with ⟨_, _, again⟩ | ⟨head, slot, again, left⟩
      · rw [scanned] at again
        cases again
      · rw [scanned] at again
        obtain ⟨rfl, rfl⟩ : pair = head ∧ advanced = { self with slotIdx := slot } := by
          simpa using again
        refine Or.inr ⟨pair, { self with slotIdx := slot }, by rw [next, if_pos more, scanned], rfl, ?_⟩
        simp only [rest, if_pos more, left, List.cons_append]
  | case3 self more passed scanned induction =>
      rcases scan_slots_spec invariant with ⟨ended, _, _⟩ | ⟨_, _, again, _⟩
      · have stepped : self.next =
            ({ self with bucketIdx := self.bucketIdx + 1, slotIdx := 0 } : RawIter).next := by
          conv => lhs; rw [next, if_pos more, scanned]
        rw [stepped, rest_next_bucket self content more ended]
        exact induction invariant
      · rw [scanned] at again
        cases again
  | case4 self done =>
      refine Or.inl ⟨by rw [rest, if_neg done], self, ?_⟩
      rw [next, if_neg done]

theorem to_list_rest (self : RawIter) (invariant : Raw.Invariant wyhash self.map content) :
    self.toList = some (self.rest content) := by
  have spells : cursor.Spells (fun iter => iter.rest content) (fun iter => iter.map = self.map) := by
    intro iter sameMap
    rcases next_spec (sameMap ▸ invariant) with ended | ⟨pair, advanced, found, kept, left⟩
    · exact Or.inl ended
    · exact Or.inr ⟨pair, advanced, found, kept.trans sameMap, left⟩
  exact Cursor.to_list_spells spells rfl

end RawIter

structure TypedIter (Key Value : Type) where
  rawIter : RawIter

namespace TypedIter

variable {Key Value : Type} [PulseKey Key] [PulseValue Value]

def new (map : PulseMapRaw) : TypedIter Key Value := ⟨RawIter.new map⟩

/-- The next pair that decodes; the others are skipped. -/
def next (self : TypedIter Key Value) : Option (Option (Key × Value) × TypedIter Key Value) :=
  match _found : self.rawIter.next with
  | none => none
  | some (none, passed) => some (none, ⟨passed⟩)
  | some (some (name, text), advanced) =>
      match (PulseKey.codec.fromBytes name : Option Key),
        (PulseValue.codec.fromBytes text : Option Value) with
      | some key, some value => some (some (key, value), ⟨advanced⟩)
      | _, _ => next ⟨advanced⟩
termination_by self.rawIter.remaining
decreasing_by all_goals exact RawIter.next_advances ‹_›

theorem next_advances {self advanced : TypedIter Key Value} {pair : Key × Value}
    (found : self.next = some (some pair, advanced)) :
    advanced.rawIter.remaining < self.rawIter.remaining := by
  fun_induction next self with
  | case1 self panicked => cases found
  | case2 self passed ended => cases found
  | case3 self name text reached stepped key value decodedKey decodedValue =>
      cases found
      exact RawIter.next_advances stepped
  | case4 self name text reached stepped skipped induction =>
      exact (induction found).trans (RawIter.next_advances stepped)

def cursor : Cursor (TypedIter Key Value) (Key × Value) :=
  ⟨next, fun iter => iter.rawIter.remaining, next_advances⟩

def toList (self : TypedIter Key Value) : Option (List (Key × Value)) := cursor.toList self

variable {wyhash : Bytes → Word} {content : Nat → Content}

def stored (pair : Key × Value) : Bytes × Bytes := (keyBytes pair.1, valueBytes pair.2)

def decoded (pair : Bytes × Bytes) : Option (Key × Value) := do
  let key ← PulseKey.codec.fromBytes pair.1
  let value ← PulseValue.codec.fromBytes pair.2
  some (key, value)

theorem decoded_stored (pair : Key × Value) : decoded (stored pair) = some pair := by
  have key : (PulseKey.codec.fromBytes (keyBytes pair.1) : Option Key) = some pair.1 :=
    PulseKey.codec.decodes pair.1
  have value : (PulseValue.codec.fromBytes (valueBytes pair.2) : Option Value) = some pair.2 :=
    PulseValue.codec.decodes pair.2
  simp [decoded, stored, key, value]

theorem next_spec {self : TypedIter Key Value}
    (invariant : Raw.Invariant wyhash self.rawIter.map content) :
    ((self.rawIter.rest content).filterMap decoded = ([] : List (Key × Value)) ∧
      ∃ passed, self.next = some (none, passed)) ∨
    ∃ (pair : Key × Value) (advanced : TypedIter Key Value),
      self.next = some (some pair, advanced) ∧ advanced.rawIter.map = self.rawIter.map ∧
      (self.rawIter.rest content).filterMap decoded =
        pair :: (advanced.rawIter.rest content).filterMap decoded := by
  induction self using next.induct with
  | case1 self panicked =>
      rcases RawIter.next_spec invariant with ⟨_, _, found⟩ | ⟨_, _, found, _⟩
      · rw [panicked] at found
        cases found
      · rw [panicked] at found
        cases found
  | case2 self passed ended =>
      rcases RawIter.next_spec invariant with ⟨left, _, _⟩ | ⟨_, _, found, _⟩
      · refine Or.inl ⟨by rw [left]; rfl, ⟨passed⟩, ?_⟩
        rw [next]
        split <;> simp_all
      · rw [ended] at found
        cases found
  | case3 self name text reached stepped key value decodedKey decodedValue =>
      rcases RawIter.next_spec invariant with ⟨_, _, found⟩ | ⟨_, _, found, sameMap, left⟩
      · rw [stepped] at found
        cases found
      · rw [stepped] at found
        cases found
        refine Or.inr ⟨(key, value), ⟨reached⟩, ?_, sameMap, ?_⟩
        · rw [next]
          split <;> simp_all
        · have here : decoded (name, text) = some (key, value) := by
            simp [decoded, decodedKey, decodedValue]
          rw [left, List.filterMap_cons_some here]
  | case4 self name text reached stepped skipped induction =>
      rcases RawIter.next_spec invariant with ⟨_, _, found⟩ | ⟨_, _, found, sameMap, left⟩
      · rw [stepped] at found
        cases found
      · rw [stepped] at found
        cases found
        have undecoded : (decoded (name, text) : Option (Key × Value)) = none := by
          cases decodedKey : (PulseKey.codec.fromBytes name : Option Key) with
          | none => simp [decoded, decodedKey]
          | some key =>
              cases decodedValue : (PulseValue.codec.fromBytes text : Option Value) with
              | none => simp [decoded, decodedKey, decodedValue]
              | some value => exact (skipped key value decodedKey decodedValue).elim
        have stepped : self.next = next (⟨reached⟩ : TypedIter Key Value) := by
          conv => lhs; rw [next]
          split <;> simp_all
        rw [stepped, left, List.filterMap_cons_none undecoded]
        rw [← sameMap] at invariant ⊢
        exact induction invariant

theorem to_list_rest (self : TypedIter Key Value)
    (invariant : Raw.Invariant wyhash self.rawIter.map content) :
    self.toList = some ((self.rawIter.rest content).filterMap decoded) := by
  have spells : cursor.Spells
      (fun iter : TypedIter Key Value => (iter.rawIter.rest content).filterMap decoded)
      (fun iter => iter.rawIter.map = self.rawIter.map) := by
    intro iter sameMap
    rcases next_spec (sameMap ▸ invariant) with ended | ⟨pair, advanced, found, kept, left⟩
    · exact Or.inl ended
    · exact Or.inr ⟨pair, advanced, found, kept.trans sameMap, left⟩
  exact Cursor.to_list_spells spells rfl

theorem decoded_all (pairs : List (Bytes × Bytes))
    (encoded : ∀ pair ∈ pairs, ∃ item : Key × Value, stored item = pair) :
    (pairs.filterMap (decoded : Bytes × Bytes → Option (Key × Value))).map stored = pairs := by
  induction pairs with
  | nil => rfl
  | cons pair rest induction =>
      obtain ⟨item, rfl⟩ := encoded pair (by simp)
      rw [List.filterMap_cons_some (decoded_stored item), List.map_cons,
        induction fun other member => encoded other (by simp [member])]

theorem to_list_encoded (self : TypedIter Key Value)
    (invariant : Raw.Invariant wyhash self.rawIter.map content)
    (encoded : Raw.Encoded Key Value content) :
    ∃ items : List (Key × Value), self.toList = some items ∧
      self.rawIter.toList = some (items.map stored) := by
  refine ⟨_, to_list_rest self invariant, ?_⟩
  rw [RawIter.to_list_rest self.rawIter invariant, decoded_all]
  intro pair member
  obtain ⟨bucket, slot, held⟩ := RawIter.mem_rest member
  obtain ⟨key, value, sameKey, sameValue⟩ := encoded bucket slot pair.1 pair.2 held
  exact ⟨(key, value), Prod.ext sameKey sameValue⟩

end TypedIter

end PulseMap
