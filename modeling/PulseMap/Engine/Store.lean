import PulseMap.Engine.Slot
import PulseMap.Library.FreeList

/-!
What a bucket stores. The maps share one store step (short pairs in place, others in
the slab), one candidate loop and three ways to write a bucket: an update in place,
a placement and a removal. `content` is the abstract reading of a bucket: for each
slot the pair it holds, or nothing. The lemmas say what each step does to it.
-/

namespace PulseMap

open FreeList

/-- The pairs held by the four slots of a bucket. -/
abbrev Content := Fin 4 → Option (Bytes × Bytes)

/-- Write the pair into the slot: in place when it fits, else through the slab. -/
def storeEntry (hr : HashResult) (key value : Bytes) (slot : Slot) (pool : SlabPool) :
    Option (Slot × SlabPool) :=
  if Slot.FitsInline key value then some (slot.setInline key value, pool)
  else do
    let (idx, pool) ← pool.alloc key value
    some (slot.setSlab hr.extFpHi hr.extFp idx, pool)

/-- The candidate loop of `insert`, `get`, `peek` and `remove`. -/
def findMatch (bucket : Bucket) (pool : SlabPool) (key : Bytes) (hr : HashResult) :
    List (Fin 4) → Option (Option (Fin 4))
  | [] => some none
  | slot :: rest => do
      if ← (bucket.slots slot).matchesKey key hr pool then some (some slot)
      else findMatch bucket pool key hr rest

namespace Bucket

def candidates (self : Bucket) (hr : HashResult) : List (Fin 4) :=
  MetaWord.scan (self.metaWord.matchMask hr.h2)

def update (self : Bucket) (slot : Fin 4) (data : Slot) : Bucket :=
  { metaWord := self.metaWord.onAccess slot, slots := Function.update self.slots slot data }

/-- Placement of a new key: state, fingerprint and initial priority. -/
def place (self : Bucket) (slot : Fin 4) (h2 : Byte) (data : Slot) : Bucket :=
  { metaWord := ((self.metaWord.setState slot .full).setH2 slot h2).onInsert slot
    slots := Function.update self.slots slot data }

/-- Removal: a tombstone over a cleared slot. -/
def tombstone (self : Bucket) (slot : Fin 4) : Bucket :=
  { metaWord := self.metaWord.setState slot .tombstone
    slots := Function.update self.slots slot (self.slots slot).clear }

end Bucket

/-! ### Reading a slot -/

namespace Slot

def slabIndex (self : Slot) : Option Nat := if self.getMode = 1#8 then some self.slabIdx else none

def Stores (wyhash : Bytes → Word) (pool : SlabPool) (key value : Bytes) (self : Slot) : Prop :=
  (self.getMode = 0#8 ∧ self.inlineKey = key ∧ self.inlineValue = value) ∨
    (self.getMode = 1#8 ∧ self.getExtFpHi = (computeHash wyhash key).extFpHi ∧
      self.getExtFp = (computeHash wyhash key).extFp ∧
      ∃ entry, pool.get self.slabIdx = some entry ∧ entry.Carries key value)

variable {wyhash : Bytes → Word} {pool : SlabPool} {key value : Bytes} {slot : Slot}

theorem stores_matches (stores : slot.Stores wyhash pool key value) (other : Bytes) :
    slot.matchesKey other (computeHash wyhash other) pool = some (decide (key = other)) := by
  rcases stores with ⟨mode, sameKey, _⟩ | ⟨mode, high, low, entry, found, carries⟩
  · simp [matchesKey, mode, sameKey, beq_eq_decide]
  · have slabMode : slot.getMode ≠ 0#8 := by rw [mode]; decide
    simp only [matchesKey, slabMode, if_false, high, low, found]
    by_cases same : key = other
    · subst same
      simp [carries.1]
    · split_ifs
      · simp [same]
      · simp [carries.1, same]

theorem stores_value (stores : slot.Stores wyhash pool key value) :
    slot.getValue pool = some value := by
  rcases stores with ⟨mode, _, sameValue⟩ | ⟨mode, _, _, entry, found, carries⟩
  · simp [getValue, mode, sameValue]
  · have slabMode : slot.getMode ≠ 0#8 := by rw [mode]; decide
    simp [getValue, slabMode, found, carries.2]

theorem stores_key (stores : slot.Stores wyhash pool key value) :
    slot.getKeyBytes pool = some key := by
  rcases stores with ⟨mode, sameKey, _⟩ | ⟨mode, _, _, entry, found, carries⟩
  · simp [getKeyBytes, mode, sameKey]
  · have slabMode : slot.getMode ≠ 0#8 := by rw [mode]; decide
    simp [getKeyBytes, slabMode, found, carries.1]

theorem stores_stable {changed : SlabPool} (stores : slot.Stores wyhash pool key value)
    (kept : ∀ idx, slot.slabIndex = some idx → changed.get idx = pool.get idx) :
    slot.Stores wyhash changed key value := by
  rcases stores with inline | ⟨mode, high, low, entry, found, carries⟩
  · exact Or.inl inline
  · have index : slot.slabIndex = some slot.slabIdx := by simp [slabIndex, mode]
    exact Or.inr ⟨mode, high, low, entry, (kept _ index).trans found, carries⟩

theorem slab_index_inline (mode : slot.getMode = 0#8) : slot.slabIndex = none := by
  simp [slabIndex, mode]

theorem slab_index_set_inline (slot : Slot) (fits : FitsInline key value) :
    (slot.setInline key value).slabIndex = none :=
  slab_index_inline (get_mode_set_inline slot key value fits)

theorem slab_index_set_slab (slot : Slot) (high : Byte) (low : BitVec 32) (idx : Nat)
    (small : idx < 2 ^ 64) : (slot.setSlab high low idx).slabIndex = some idx := by
  rw [slabIndex, get_mode_set_slab, if_pos rfl, slab_idx_set_slab, Nat.mod_eq_of_lt small]

theorem set_inline_stores (slot : Slot) (pool : SlabPool) (fits : FitsInline key value) :
    (slot.setInline key value).Stores wyhash pool key value :=
  Or.inl ⟨get_mode_set_inline slot key value fits, inline_key_set_inline slot key value fits,
    inline_value_set_inline slot key value fits⟩

theorem set_slab_stores (slot : Slot) (idx : Nat) (small : idx < 2 ^ 64)
    {entry : SlabEntry} (found : pool.get idx = some entry) (carries : entry.Carries key value) :
    (slot.setSlab (computeHash wyhash key).extFpHi (computeHash wyhash key).extFp idx).Stores
      wyhash pool key value := by
  refine Or.inr ⟨get_mode_set_slab .., ?_, ext_fp_set_slab .., entry, ?_, carries⟩
  · rw [ext_fp_hi_set_slab, ext_fp_hi_masked]
  · rw [slab_idx_set_slab, Nat.mod_eq_of_lt small]
    exact found

end Slot

/-! ### Pool steps under exact accounting -/

/-- The slab index held for a slot, seen from the bucket: only Full slots hold one. -/
def Bucket.slotIndex (self : Bucket) (slot : Fin 4) : Option Nat :=
  if self.metaWord.getState slot = .full then (self.slots slot).slabIndex else none

abbrev Position := Nat × Fin 4

def positions (numBuckets : Nat) : Finset Position := Finset.range numBuckets ×ˢ Finset.univ

theorem positions_card (numBuckets : Nat) : (positions numBuckets).card = 4 * numBuckets := by
  simp [positions, Nat.mul_comm]

theorem mem_positions {numBuckets bucket : Nat} {slot : Fin 4} :
    (bucket, slot) ∈ positions numBuckets ↔ bucket < numBuckets := by
  simp [positions]

def PoolAccounts (numBuckets : Nat) (own : Position → Option Nat) (pool : SlabPool) : Prop :=
  Accounts (positions numBuckets) own pool.freeList pool.entries.length

variable {numBuckets : Nat} {own : Position → Option Nat} {pool : SlabPool}

theorem pool_free (accounts : PoolAccounts numBuckets own pool) {position : Position} {idx : Nat}
    (held : own position = some idx) :
    PoolAccounts numBuckets (Function.update own position none) (pool.free idx) :=
  accounts_release accounts held

/-- An allocation for a position that holds nothing: it never indexes out of range,
the entry returned carries the pair, and entries held by other positions are kept. -/
theorem pool_alloc (accounts : PoolAccounts numBuckets own pool) {position : Position}
    (inside : position ∈ positions numBuckets) (idle : own position = none)
    {key value : Bytes} (small : key.length + value.length < 2 ^ 32) :
    ∃ idx grown entry, pool.alloc key value = some (idx, grown) ∧
      PoolAccounts numBuckets (Function.update own position (some idx)) grown ∧
      grown.get idx = some entry ∧ entry.Carries key value ∧
      (∀ other kept, own other = some kept → grown.get kept = pool.get kept) := by
  obtain ⟨entries, freeList⟩ := pool
  cases freeList with
  | nil =>
      refine ⟨entries.length, ⟨entries ++ [SlabEntry.fresh key value], []⟩,
        SlabEntry.fresh key value, rfl, ?_, ?_, SlabEntry.fresh_carries key value small, ?_⟩
      · have extended := accounts_extend accounts inside idle
        simpa [PoolAccounts] using extended
      · simp [SlabPool.get]
      · intro other kept holds
        have below : kept < entries.length := (accounts.ownBound other kept holds).2.1
        simp [SlabPool.get, List.getElem?_append_left below]
  | cons idx rest =>
      have below : idx < entries.length := accounts.freeBound idx (by simp)
      refine ⟨idx, ⟨entries.set idx (entries[idx].rewrite key value), rest⟩,
        entries[idx].rewrite key value, ?_, ?_, ?_,
        SlabEntry.rewrite_carries entries[idx] key value small, ?_⟩
      · simp [SlabPool.alloc, List.getElem?_eq_getElem below]
      · have reused := accounts_reuse accounts inside idle
        simpa [PoolAccounts] using reused
      · simp [SlabPool.get, below]
      · intro other kept holds
        have different : idx ≠ kept := by
          rintro rfl
          exact (accounts.ownBound other idx holds).2.2 (by simp)
        simp [SlabPool.get, List.getElem?_set_ne different]

theorem pool_index_small (accounts : PoolAccounts numBuckets own pool)
    (layout : numBuckets ≤ 2 ^ 58) {position : Position} {idx : Nat}
    (held : own position = some idx) : idx < 2 ^ 64 := by
  have below := (accounts.ownBound position idx held).2.1
  have bound := accounts.sizeBound
  rw [positions_card] at bound
  omega

theorem store_entry_spec (wyhash : Bytes → Word) (accounts : PoolAccounts numBuckets own pool)
    (layout : numBuckets ≤ 2 ^ 58) {position : Position}
    (inside : position ∈ positions numBuckets) (idle : own position = none)
    {key value : Bytes} (small : key.length + value.length < 2 ^ 32) (slot : Slot) :
    ∃ data grown, storeEntry (computeHash wyhash key) key value slot pool = some (data, grown) ∧
      data.Stores wyhash grown key value ∧
      PoolAccounts numBuckets (Function.update own position data.slabIndex) grown ∧
      (∀ other kept, own other = some kept → grown.get kept = pool.get kept) := by
  by_cases fits : Slot.FitsInline key value
  · refine ⟨slot.setInline key value, pool, by simp [storeEntry, fits],
      Slot.set_inline_stores slot pool fits, ?_, fun _ _ _ => rfl⟩
    rw [Slot.slab_index_set_inline slot fits, ← idle, Function.update_eq_self]
    exact accounts
  · obtain ⟨idx, grown, entry, allocated, granted, found, carries, kept⟩ :=
      pool_alloc accounts inside idle small
    have indexSmall := pool_index_small granted layout (Function.update_self position (some idx) own)
    refine ⟨slot.setSlab (computeHash wyhash key).extFpHi (computeHash wyhash key).extFp idx, grown,
      by simp [storeEntry, fits, allocated],
      Slot.set_slab_stores slot idx indexSmall found carries, ?_, kept⟩
    rw [Slot.slab_index_set_slab slot _ _ idx indexSmall]
    exact granted

/-! ### Reading a bucket -/

section Reading

variable (wyhash : Bytes → Word)

/-- The metadata word agrees with the content: Full states and fingerprints. -/
def MetaAgrees (bucket : Bucket) (content : Content) : Prop :=
  ∀ slot, match content slot with
    | some (key, _) => bucket.metaWord.getState slot = .full ∧
        bucket.metaWord.getH2 slot = (computeHash wyhash key).h2
    | none => bucket.metaWord.getState slot ≠ .full

/-- The bytes of one slot agree with the content; a vacant slot is never in slab mode. -/
def SlotAgrees (pool : SlabPool) (bucket : Bucket) (content : Content) (slot : Fin 4) : Prop :=
  match content slot with
  | some (key, value) => (bucket.slots slot).Stores wyhash pool key value
  | none => (bucket.slots slot).getMode = 0#8

/-- No key is held by two slots. -/
def Distinct (content : Content) : Prop :=
  ∀ slot other key value otherValue, content slot = some (key, value) →
    content other = some (key, otherValue) → slot = other

variable {wyhash} {bucket : Bucket} {content : Content}

theorem vacant_meta (wyhash : Bytes → Word) : MetaAgrees wyhash Bucket.empty fun _ => none := by
  intro slot
  simp [Bucket.empty, MetaWord.get_state_empty]

theorem meta_full_iff (agrees : MetaAgrees wyhash bucket content) (slot : Fin 4) :
    bucket.metaWord.getState slot = .full ↔ (content slot).isSome := by
  have here := agrees slot
  cases held : content slot with
  | none => simpa [held] using here
  | some pair => simp only [held] at here; simp [here.1]

def slotOf (content : Content) (key : Bytes) : Option (Fin 4) :=
  (List.finRange 4).find? fun slot => (content slot).map Prod.fst = some key

theorem slot_of_some {key : Bytes} {slot : Fin 4} (found : slotOf content key = some slot) :
    ∃ value, content slot = some (key, value) := by
  have here := List.find?_some found
  cases held : content slot with
  | none => simp [held] at here
  | some pair =>
      have same : pair.1 = key := by simpa [held] using here
      exact ⟨pair.2, by rw [← same]⟩

theorem slot_of_none {key : Bytes} (missing : slotOf content key = none) (slot : Fin 4)
    (value : Bytes) : content slot ≠ some (key, value) := by
  intro held
  have here := List.find?_eq_none.mp missing slot (List.mem_finRange slot)
  simp [held] at here

theorem slot_of_eq {key value : Bytes} {slot : Fin 4} (distinct : Distinct content)
    (held : content slot = some (key, value)) : slotOf content key = some slot := by
  cases found : slotOf content key with
  | none => exact absurd held (slot_of_none found slot value)
  | some other =>
      obtain ⟨otherValue, otherHeld⟩ := slot_of_some found
      rw [distinct other slot key otherValue value otherHeld held]

/-- The loop over any candidate list whose slots are settled finds the first holder. -/
theorem find_match_list (pool : SlabPool) (key : Bytes) (slots : List (Fin 4))
    (settled : ∀ slot ∈ slots, (content slot).isSome ∧ SlotAgrees wyhash pool bucket content slot) :
    findMatch bucket pool key (computeHash wyhash key) slots =
      some (slots.find? fun slot => (content slot).map Prod.fst = some key) := by
  induction slots with
  | nil => rfl
  | cons slot rest induction =>
      obtain ⟨full, agrees⟩ := settled slot (by simp)
      obtain ⟨⟨held, value⟩, present⟩ := Option.isSome_iff_exists.mp full
      have stores : (bucket.slots slot).Stores wyhash pool held value := by
        simpa [SlotAgrees, present] using agrees
      have tail := induction (by intro other member; exact settled other (by simp [member]))
      simp only [findMatch, Slot.stores_matches stores key]
      by_cases same : held = key
      · simp [same, present]
      · simp [same, present, tail]

theorem candidates_full (metaAgrees : MetaAgrees wyhash bucket content) (hr : HashResult) :
    ∀ slot ∈ bucket.candidates hr, (content slot).isSome := by
  intro slot member
  rw [Bucket.candidates, MetaWord.scan_match_mask] at member
  have full := (List.mem_filter.mp member).2
  simp only [decide_eq_true_eq] at full
  exact (meta_full_iff metaAgrees slot).mp full.1

/-- Candidates are exactly the Full slots with the key's fingerprint; the others
cannot hold the key, so skipping them loses nothing. -/
theorem candidates_find (metaAgrees : MetaAgrees wyhash bucket content) (key : Bytes) :
    ((bucket.candidates (computeHash wyhash key)).find? fun slot =>
      (content slot).map Prod.fst = some key) = slotOf content key := by
  rw [Bucket.candidates, MetaWord.scan_match_mask, List.find?_filter]
  refine congrArg (fun test => List.find? test (List.finRange 4)) ?_
  funext slot
  have here := metaAgrees slot
  cases held : content slot with
  | none => simp
  | some pair =>
      obtain ⟨stored, value⟩ := pair
      simp only [held] at here
      by_cases same : stored = key
      · subst same
        simp [here.1, here.2, h2_masked]
      · simp [same]

theorem find_match_spec {pool : SlabPool} (metaAgrees : MetaAgrees wyhash bucket content)
    (slotAgrees : ∀ slot, SlotAgrees wyhash pool bucket content slot) (key : Bytes) :
    findMatch bucket pool key (computeHash wyhash key) (bucket.candidates (computeHash wyhash key)) =
      some (slotOf content key) := by
  rw [find_match_list pool key _ fun slot member =>
    ⟨candidates_full metaAgrees _ slot member, slotAgrees slot⟩, candidates_find metaAgrees key]

end Reading

/-! ### Writing a bucket -/

section Writing

variable {wyhash : Bytes → Word} {bucket : Bucket} {content : Content}

theorem update_meta (agrees : MetaAgrees wyhash bucket content) {slot : Fin 4} {key old : Bytes}
    (held : content slot = some (key, old)) (value : Bytes) (data : Slot) :
    MetaAgrees wyhash (bucket.update slot data)
      (Function.update content slot (some (key, value))) := by
  intro other
  have here := agrees other
  by_cases same : other = slot
  · subst same
    simpa [Bucket.update, held] using here
  · simpa [Bucket.update, same] using here

theorem place_meta (agrees : MetaAgrees wyhash bucket content) (slot : Fin 4)
    (key value : Bytes) (data : Slot) :
    MetaAgrees wyhash (bucket.place slot (computeHash wyhash key).h2 data)
      (Function.update content slot (some (key, value))) := by
  intro other
  have here := agrees other
  by_cases same : other = slot
  · subst same
    simp [Bucket.place, h2_masked]
  · simpa [Bucket.place, same] using here

theorem tombstone_meta (agrees : MetaAgrees wyhash bucket content) (slot : Fin 4) :
    MetaAgrees wyhash (bucket.tombstone slot) (Function.update content slot none) := by
  intro other
  have here := agrees other
  by_cases same : other = slot
  · subst same
    simp [Bucket.tombstone]
  · simpa [Bucket.tombstone, same] using here

theorem distinct_update {slot : Fin 4} {key : Bytes} (distinct : Distinct content)
    (absent : ∀ other value, other ≠ slot → content other ≠ some (key, value)) (value : Bytes) :
    Distinct (Function.update content slot (some (key, value))) := by
  intro left right name leftValue rightValue leftHeld rightHeld
  by_cases sameLeft : left = slot
  · by_cases sameRight : right = slot
    · rw [sameLeft, sameRight]
    · subst sameLeft
      rw [Function.update_self] at leftHeld
      rw [Function.update_of_ne sameRight] at rightHeld
      cases leftHeld
      exact absurd rightHeld (absent right rightValue sameRight)
  · by_cases sameRight : right = slot
    · subst sameRight
      rw [Function.update_self] at rightHeld
      rw [Function.update_of_ne sameLeft] at leftHeld
      cases rightHeld
      exact absurd leftHeld (absent left leftValue sameLeft)
    · rw [Function.update_of_ne sameLeft] at leftHeld
      rw [Function.update_of_ne sameRight] at rightHeld
      exact distinct left right name leftValue rightValue leftHeld rightHeld

theorem distinct_erase (slot : Fin 4) (distinct : Distinct content) :
    Distinct (Function.update content slot none) := by
  intro left right name leftValue rightValue leftHeld rightHeld
  by_cases sameLeft : left = slot
  · simp [sameLeft] at leftHeld
  · by_cases sameRight : right = slot
    · simp [sameRight] at rightHeld
    · rw [Function.update_of_ne sameLeft] at leftHeld
      rw [Function.update_of_ne sameRight] at rightHeld
      exact distinct left right name leftValue rightValue leftHeld rightHeld

end Writing

end PulseMap
