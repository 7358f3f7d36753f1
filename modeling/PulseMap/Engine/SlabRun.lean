import PulseMap.Engine.Slot

/-!
`engine/slab.rs` over whole runs: any sequence of allocations and frees as the maps issue
them. While every pair fits the 32-bit length fields, each live entry returns the bytes
last stored in it and the recorded capacity is the real size of its buffer; the first
pair that does not fit breaks both.
-/

namespace PulseMap

inductive SlabCall where
  | alloc (key value : Bytes)
  | free (idx : Nat)

/-- A pool with the pair last given for each index that is not freed. -/
structure SlabRun where
  pool : SlabPool
  live : Nat → Option (Bytes × Bytes)

namespace SlabRun

def new : SlabRun := ⟨SlabPool.new, fun _ => none⟩

/-- The maps store a pair in the pool only if it does not fit a slot, and free only
what a slot holds. -/
def Issues (self : SlabRun) : SlabCall → Prop
  | .alloc key value => ¬Slot.FitsInline key value
  | .free idx => self.live idx ≠ none

def step (self : SlabRun) : SlabCall → Option SlabRun
  | .alloc key value => do
      let (idx, pool) ← self.pool.alloc key value
      some ⟨pool, Function.update self.live idx (some (key, value))⟩
  | .free idx => some ⟨self.pool.free idx, Function.update self.live idx none⟩

def run : SlabRun → List SlabCall → Option SlabRun
  | self, [] => some self
  | self, call :: rest => do
      let next ← self.step call
      run next rest

def IssuesAll : SlabRun → List SlabCall → Prop
  | _, [] => True
  | self, call :: rest => self.Issues call ∧ ∀ next, self.step call = some next → next.IssuesAll rest

/-- The pair fits the 32-bit length fields. -/
def Fits : SlabCall → Prop
  | .alloc key value => key.length + value.length < 2 ^ 32
  | .free _ => True

end SlabRun

/-- The recorded capacity is the size of the buffer and holds what is stored. -/
structure SlabEntry.Exact (entry : SlabEntry) : Prop where
  size : entry.cap.toNat = entry.data.length
  room : entry.keyLen.toNat + entry.valLen.toNat ≤ entry.cap.toNat
  positive : 0 < entry.cap.toNat

/-- Live entries return their bytes, and every capacity is exact. -/
structure SlabRun.Exact (state : SlabRun) : Prop where
  live : ∀ idx key value, state.live idx = some (key, value) →
    ∃ entry, state.pool.get idx = some entry ∧ entry.key = key ∧ entry.value = value
  entries : ∀ entry ∈ state.pool.entries, entry.Exact

namespace SlabEntry

variable {key value : Bytes}

theorem large_positive (large : ¬Slot.FitsInline key value) : 0 < key.length + value.length := by
  unfold Slot.FitsInline at large
  omega

theorem exact_of_sizes {self : SlabEntry} (small : key.length + value.length < 2 ^ 32)
    (keyLen : self.keyLen = BitVec.ofNat 32 key.length)
    (valLen : self.valLen = BitVec.ofNat 32 value.length)
    (size : self.cap.toNat = self.data.length) (room : key.length + value.length ≤ self.cap.toNat)
    (positive : 0 < self.cap.toNat) : self.Exact := by
  refine ⟨size, ?_, positive⟩
  rw [keyLen, valLen, BitVec.toNat_ofNat, BitVec.toNat_ofNat, Nat.mod_eq_of_lt (by omega),
    Nat.mod_eq_of_lt (by omega)]
  exact room

theorem fresh_size (key value : Bytes) :
    (fresh key value).data.length = max (key.length + value.length) 1 := by
  rw [fresh, copy_in_length _ _ _ (by simp), List.length_replicate]

theorem fresh_exact (large : ¬Slot.FitsInline key value)
    (small : key.length + value.length < 2 ^ 32) : (fresh key value).Exact := by
  have positive := large_positive large
  have cap : (fresh key value).cap.toNat = key.length + value.length := by
    change (BitVec.ofNat 32 (key.length + value.length)).toNat = _
    rw [BitVec.toNat_ofNat, Nat.mod_eq_of_lt small]
  apply exact_of_sizes small rfl rfl
  · rw [cap, fresh_size]
    omega
  · rw [cap]
  · rw [cap]
    exact positive

theorem rewrite_grown (self : SlabEntry) (grows : self.cap.toNat < key.length + value.length) :
    (self.rewrite key value).cap = BitVec.ofNat 32 (key.length + value.length) ∧
      (self.rewrite key value).data.length = key.length + value.length := by
  rw [rewrite, dif_pos grows]
  refine ⟨rfl, ?_⟩
  rw [copy_in_length _ _ _ (by rw [realloc_length]), realloc_length]

theorem rewrite_kept (self : SlabEntry) (fits : ¬self.cap.toNat < key.length + value.length) :
    (self.rewrite key value).cap = self.cap ∧
      (self.rewrite key value).data.length = self.data.length := by
  have room := self.inBuffer
  rw [rewrite, dif_neg fits]
  refine ⟨rfl, ?_⟩
  rw [copy_in_length _ _ _ (by omega)]

theorem rewrite_lengths (self : SlabEntry) (key value : Bytes) :
    (self.rewrite key value).keyLen = BitVec.ofNat 32 key.length ∧
      (self.rewrite key value).valLen = BitVec.ofNat 32 value.length := by
  by_cases grows : self.cap.toNat < key.length + value.length
  · rw [rewrite, dif_pos grows]
    exact ⟨rfl, rfl⟩
  · rw [rewrite, dif_neg grows]
    exact ⟨rfl, rfl⟩

theorem rewrite_exact {self : SlabEntry} (exact : self.Exact)
    (small : key.length + value.length < 2 ^ 32) : (self.rewrite key value).Exact := by
  obtain ⟨keyLen, valLen⟩ := rewrite_lengths self key value
  by_cases grows : self.cap.toNat < key.length + value.length
  · obtain ⟨cap, size⟩ := rewrite_grown self grows
    have total : (self.rewrite key value).cap.toNat = key.length + value.length := by
      rw [cap, BitVec.toNat_ofNat, Nat.mod_eq_of_lt small]
    apply exact_of_sizes small keyLen valLen
    · rw [total, size]
    · rw [total]
    · rw [total]
      omega
  · obtain ⟨cap, size⟩ := rewrite_kept self grows
    apply exact_of_sizes small keyLen valLen
    · rw [cap, size]
      exact exact.size
    · rw [cap]
      omega
    · rw [cap]
      exact exact.positive

theorem exact_small {self : SlabEntry} (exact : self.Exact) : self.data.length < 2 ^ 32 := by
  rw [← exact.size]
  exact self.cap.isLt

end SlabEntry

namespace SlabRun

/-- Freed indices are in range and not live, live ones are in range. -/
structure Sound (state : SlabRun) : Prop where
  distinct : state.pool.freeList.Nodup
  freed : ∀ idx ∈ state.pool.freeList, idx < state.pool.entries.length ∧ state.live idx = none
  inRange : ∀ idx, state.live idx ≠ none → idx < state.pool.entries.length

theorem new_sound : new.Sound := by
  refine ⟨List.nodup_nil, ?_, ?_⟩
  · intro idx member
    cases member
  · intro idx held
    exact absurd rfl held

theorem new_exact : new.Exact := by
  refine ⟨?_, ?_⟩
  · intro idx key value held
    cases held
  · intro entry member
    cases member

variable {state next : SlabRun} {key value : Bytes} {idx : Nat}

/-- An allocation, said once: a fresh entry at the end or the rewrite of the last freed one. -/
theorem alloc_cases (sound : state.Sound) (key value : Bytes) :
    (state.pool.freeList = [] ∧ state.step (.alloc key value) =
      some ⟨⟨state.pool.entries ++ [SlabEntry.fresh key value], []⟩,
        Function.update state.live state.pool.entries.length (some (key, value))⟩) ∨
    ∃ idx rest entry, state.pool.freeList = idx :: rest ∧ state.pool.entries[idx]? = some entry ∧
      state.step (.alloc key value) =
        some ⟨⟨state.pool.entries.set idx (entry.rewrite key value), rest⟩,
          Function.update state.live idx (some (key, value))⟩ := by
  cases free : state.pool.freeList with
  | nil => exact Or.inl ⟨rfl, by simp [step, SlabPool.alloc, free]⟩
  | cons idx rest =>
      have below := (sound.freed idx (by simp [free])).1
      refine Or.inr ⟨idx, rest, state.pool.entries[idx], rfl, List.getElem?_eq_getElem below, ?_⟩
      simp [step, SlabPool.alloc, free, List.getElem?_eq_getElem below]

theorem alloc_sound (sound : state.Sound) (stepped : state.step (.alloc key value) = some next) :
    next.Sound := by
  rcases alloc_cases sound key value with ⟨none, result⟩ | ⟨idx, rest, entry, free, found, result⟩
  · rw [stepped] at result
    cases result
    refine ⟨List.nodup_nil, ?_, ?_⟩
    · intro idx member
      cases member
    · intro idx held
      by_cases here : idx = state.pool.entries.length
      · simp [here]
      · have below := sound.inRange idx (by simpa [here] using held)
        simp only [List.length_append, List.length_singleton]
        omega
  · rw [stepped] at result
    cases result
    have distinct := sound.distinct
    rw [free] at distinct
    obtain ⟨apart, distinct⟩ := List.nodup_cons.mp distinct
    refine ⟨distinct, ?_, ?_⟩
    · intro other member
      obtain ⟨below, idle⟩ := sound.freed other (by simp [free, member])
      have different : other ≠ idx := fun same => apart (same ▸ member)
      simpa [different] using And.intro below idle
    · intro other held
      rw [List.length_set]
      by_cases here : other = idx
      · rw [here]
        exact (sound.freed idx (by simp [free])).1
      · exact sound.inRange other (by simpa [here] using held)

theorem free_sound (sound : state.Sound) (held : state.live idx ≠ none)
    (stepped : state.step (.free idx) = some next) : next.Sound := by
  cases stepped
  have fresh : idx ∉ state.pool.freeList := fun member => held (sound.freed idx member).2
  refine ⟨List.nodup_cons.mpr ⟨fresh, sound.distinct⟩, ?_, ?_⟩
  · intro other member
    rcases List.mem_cons.mp member with rfl | earlier
    · exact ⟨sound.inRange other held, Function.update_self ..⟩
    · obtain ⟨below, idle⟩ := sound.freed other earlier
      refine ⟨below, ?_⟩
      by_cases here : other = idx
      · simp [here]
      · simpa [here] using idle
  · intro other stillHeld
    apply sound.inRange other
    intro idle
    apply stillHeld
    by_cases here : other = idx
    · simp [here]
    · simpa [here] using idle

theorem alloc_exact (sound : state.Sound) (exact : state.Exact)
    (large : ¬Slot.FitsInline key value) (small : key.length + value.length < 2 ^ 32)
    (stepped : state.step (.alloc key value) = some next) : next.Exact := by
  rcases alloc_cases sound key value with ⟨none, result⟩ | ⟨idx, rest, entry, free, found, result⟩
  · rw [stepped] at result
    cases result
    refine ⟨?_, ?_⟩
    · intro other name text held
      by_cases here : other = state.pool.entries.length
      · subst here
        obtain ⟨rfl, rfl⟩ : key = name ∧ value = text := by simpa using held
        exact ⟨SlabEntry.fresh key value, by simp [SlabPool.get],
          SlabEntry.fresh_carries key value small⟩
      · obtain ⟨entry, found, carries⟩ := exact.live other name text (by simpa [here] using held)
        have below := sound.inRange other (by
          rw [show state.live other = some (name, text) by simpa [here] using held]
          simp)
        exact ⟨entry, by simpa [SlabPool.get, List.getElem?_append_left below] using found, carries⟩
    · intro entry member
      rcases List.mem_append.mp member with old | new
      · exact exact.entries entry old
      · rw [List.mem_singleton.mp new]
        exact SlabEntry.fresh_exact large small
  · rw [stepped] at result
    cases result
    have below := (sound.freed idx (by simp [free])).1
    have old : entry ∈ state.pool.entries := List.mem_of_getElem? found
    refine ⟨?_, ?_⟩
    · intro other name text held
      by_cases here : other = idx
      · subst here
        obtain ⟨rfl, rfl⟩ : key = name ∧ value = text := by simpa using held
        exact ⟨entry.rewrite key value, by simp [SlabPool.get, below],
          SlabEntry.rewrite_carries entry key value small⟩
      · obtain ⟨other, found, carries⟩ := exact.live other name text (by simpa [here] using held)
        exact ⟨other, by simpa [SlabPool.get, List.getElem?_set_ne (Ne.symm here)] using found, carries⟩
    · intro changed member
      rcases List.mem_or_eq_of_mem_set member with kept | same
      · exact exact.entries changed kept
      · rw [same]
        exact SlabEntry.rewrite_exact (exact.entries entry old) small

theorem alloc_fits (sound : state.Sound) (stepped : state.step (.alloc key value) = some next)
    (exact : next.Exact) : key.length + value.length < 2 ^ 32 := by
  rcases alloc_cases sound key value with ⟨none, result⟩ | ⟨idx, rest, entry, free, found, result⟩
  · rw [stepped] at result
    cases result
    have bound := SlabEntry.exact_small (exact.entries (SlabEntry.fresh key value) (by simp))
    rw [SlabEntry.fresh_size] at bound
    omega
  · rw [stepped] at result
    cases result
    have below := (sound.freed idx (by simp [free])).1
    by_contra wide
    have grows : entry.cap.toNat < key.length + value.length := by
      have narrow := entry.cap.isLt
      omega
    have bound := SlabEntry.exact_small (exact.entries (entry.rewrite key value)
      (List.mem_set below (entry.rewrite key value)))
    rw [(SlabEntry.rewrite_grown entry grows).2] at bound
    exact wide bound

theorem free_exact (exact : state.Exact) (stepped : state.step (.free idx) = some next) :
    next.Exact := by
  cases stepped
  refine ⟨?_, exact.entries⟩
  intro other name text held
  by_cases here : other = idx
  · simp [here] at held
  · exact exact.live other name text (by simpa [here] using held)

/-! ### One call and whole runs -/

variable {call : SlabCall}

theorem step_returns (sound : state.Sound) (call : SlabCall) : ∃ next, state.step call = some next := by
  cases call with
  | alloc key value =>
      rcases alloc_cases sound key value with ⟨_, result⟩ | ⟨_, _, _, _, _, result⟩
      · exact ⟨_, result⟩
      · exact ⟨_, result⟩
  | free idx => exact ⟨_, rfl⟩

theorem step_sound (sound : state.Sound) (issued : state.Issues call)
    (stepped : state.step call = some next) : next.Sound := by
  cases call with
  | alloc key value => exact alloc_sound sound stepped
  | free idx => exact free_sound sound issued stepped

/-- One issued call keeps the pool exact just when its pair fits. -/
theorem step_exact (sound : state.Sound) (exact : state.Exact) (issued : state.Issues call)
    (stepped : state.step call = some next) : next.Exact ↔ Fits call := by
  cases call with
  | alloc key value =>
      exact ⟨alloc_fits sound stepped, fun fits => alloc_exact sound exact issued fits stepped⟩
  | free idx => exact ⟨fun _ => trivial, fun _ => free_exact exact stepped⟩

def ExactThroughout (state : SlabRun) (calls : List SlabCall) : Prop :=
  ∀ earlier, earlier <+: calls → ∃ reached, state.run earlier = some reached ∧ reached.Exact

theorem exact_throughout_cons (exact : state.Exact) (stepped : state.step call = some next)
    (rest : List SlabCall) :
    state.ExactThroughout (call :: rest) ↔ next.ExactThroughout rest := by
  have run_cons : ∀ calls, state.run (call :: calls) = next.run calls := by
    intro calls
    simp [run, stepped]
  constructor
  · intro throughout earlier isPrefix
    have reached := throughout (call :: earlier) (List.cons_prefix_cons.mpr ⟨rfl, isPrefix⟩)
    rwa [run_cons] at reached
  · intro throughout earlier isPrefix
    cases earlier with
    | nil => exact ⟨state, rfl, exact⟩
    | cons first others =>
        obtain ⟨rfl, tail⟩ := List.cons_prefix_cons.mp isPrefix
        rw [run_cons]
        exact throughout others tail

theorem run_exact (calls : List SlabCall) (sound : state.Sound) (exact : state.Exact)
    (issued : state.IssuesAll calls) :
    state.ExactThroughout calls ↔ ∀ call ∈ calls, Fits call := by
  induction calls generalizing state with
  | nil =>
      simp only [List.not_mem_nil, false_implies, implies_true, iff_true]
      intro earlier isPrefix
      rw [List.prefix_nil.mp isPrefix]
      exact ⟨state, rfl, exact⟩
  | cons call rest induction =>
      obtain ⟨next, stepped⟩ := step_returns sound call
      have nextSound := step_sound sound issued.1 stepped
      have nextIssued := issued.2 next stepped
      have keeps := step_exact sound exact issued.1 stepped
      rw [exact_throughout_cons exact stepped, List.forall_mem_cons, ← keeps]
      constructor
      · intro throughout
        obtain ⟨reached, same, nextExact⟩ := throughout [] List.nil_prefix
        cases same
        exact ⟨nextExact, (induction nextSound nextExact nextIssued).mp throughout⟩
      · intro ⟨nextExact, fits⟩
        exact (induction nextSound nextExact nextIssued).mpr fits

/-- In a run of calls as the maps issue them, every live entry returns its bytes and every
capacity is exact, in every state, if and only if every pair fits 32-bit lengths. -/
theorem slab_exact_iff_fits (calls : List SlabCall) (issued : new.IssuesAll calls) :
    new.ExactThroughout calls ↔ ∀ call ∈ calls, Fits call :=
  run_exact calls new_sound new_exact issued

theorem slab_exact_iff_fits_reused :
    let calls : List SlabCall := [.alloc [1] [1, 2, 3, 4, 5, 6, 7, 8], .free 0,
      .alloc [1] [1, 2, 3, 4, 5, 6, 7, 8, 9], .alloc [2] [8, 7, 6, 5, 4, 3, 2, 1], .free 0]
    (new.ExactThroughout calls ↔ ∀ call ∈ calls, Fits call) ∧ new.ExactThroughout calls := by
  intro calls
  have issued : new.IssuesAll calls := by
    refine ⟨by unfold Issues Slot.FitsInline; decide, ?_⟩
    rintro _ ⟨⟩
    refine ⟨by unfold Issues; decide, ?_⟩
    rintro _ ⟨⟩
    refine ⟨by unfold Issues Slot.FitsInline; decide, ?_⟩
    rintro _ ⟨⟩
    refine ⟨by unfold Issues Slot.FitsInline; decide, ?_⟩
    rintro _ ⟨⟩
    exact ⟨by unfold Issues; decide, fun _ _ => trivial⟩
  have exactly := slab_exact_iff_fits calls issued
  refine ⟨exactly, exactly.mpr ?_⟩
  intro call member
  simp only [calls, List.mem_cons, List.not_mem_nil, or_false] at member
  rcases member with rfl | rfl | rfl | rfl | rfl <;> simp [Fits]

/-- An entry of exactly 2^32 bytes records length and capacity 0 and returns no bytes. -/
theorem wide_value_truncated (value : Bytes) (wide : value.length = 2 ^ 32) :
    new.IssuesAll [.alloc [] value] ∧ ¬new.ExactThroughout [.alloc [] value] ∧
      ∃ state entry, new.run [.alloc [] value] = some state ∧ state.live 0 = some ([], value) ∧
        state.pool.get 0 = some entry ∧ entry.value = [] ∧ entry.cap = 0 ∧
        entry.data.length = 2 ^ 32 := by
  have large : ¬Slot.FitsInline [] value := by
    unfold Slot.FitsInline
    omega
  have issued : new.IssuesAll [.alloc [] value] := ⟨large, fun _ _ => trivial⟩
  refine ⟨issued, ?_, ?_⟩
  · intro throughout
    have fits := (run_exact _ new_sound new_exact issued).mp throughout _ (List.mem_singleton.mpr rfl)
    simp [Fits, wide] at fits
  · refine ⟨_, SlabEntry.fresh [] value, rfl, rfl, rfl, ?_, ?_, ?_⟩
    · have none : (SlabEntry.fresh [] value).valLen.toNat = 0 := by
        change (BitVec.ofNat 32 value.length).toNat = 0
        rw [wide]
        decide
      simp [SlabEntry.value, none, ByteRange.slice]
    · change BitVec.ofNat 32 ([].length + value.length) = 0
      rw [wide]
      decide
    · rw [SlabEntry.fresh_size, wide]
      decide

theorem slab_truncates_wide_value :
    new.IssuesAll [.alloc [] (List.replicate (2 ^ 32) 0)] ∧
      ¬new.ExactThroughout [.alloc [] (List.replicate (2 ^ 32) 0)] ∧
      ∃ state entry, new.run [.alloc [] (List.replicate (2 ^ 32) 0)] = some state ∧
        state.live 0 = some ([], List.replicate (2 ^ 32) 0) ∧ state.pool.get 0 = some entry ∧
        entry.value = [] ∧ entry.cap = 0 ∧ entry.data.length = 2 ^ 32 :=
  wide_value_truncated (List.replicate (2 ^ 32) 0) List.length_replicate

end SlabRun

end PulseMap
