import Mathlib

/-!
Exact accounting for an index pool with a free list. Every index below `size` is
either on the free list or held by exactly one owner, and never both. Owners come
from a finite set, so the pool cannot outgrow it: a fresh index is only minted when
the free list is empty, and then some owner still has none.
-/

namespace PulseMap.FreeList

variable {Owner : Type*} [DecidableEq Owner]

structure Accounts (owners : Finset Owner) (own : Owner → Option Nat) (free : List Nat)
    (size : Nat) : Prop where
  freeDistinct : free.Nodup
  freeBound : ∀ index ∈ free, index < size
  ownBound : ∀ owner index, own owner = some index →
    owner ∈ owners ∧ index < size ∧ index ∉ free
  exclusive : ∀ owner other index, own owner = some index → own other = some index →
    owner = other
  covered : ∀ index < size, index ∈ free ∨ ∃ owner, own owner = some index
  sizeBound : size ≤ owners.card

variable {owners : Finset Owner} {own : Owner → Option Nat} {free : List Nat} {size : Nat}

omit [DecidableEq Owner] in
theorem accounts_empty (owners : Finset Owner) :
    Accounts owners (fun _ => none) [] 0 where
  freeDistinct := List.nodup_nil
  freeBound := by simp
  ownBound := by simp
  exclusive := by simp
  covered := by simp
  sizeBound := Nat.zero_le _

theorem accounts_release (accounts : Accounts owners own free size) {owner : Owner} {index : Nat}
    (held : own owner = some index) :
    Accounts owners (Function.update own owner none) (index :: free) size := by
  obtain ⟨_, bound, notFree⟩ := accounts.ownBound owner index held
  refine ⟨List.nodup_cons.mpr ⟨notFree, accounts.freeDistinct⟩, ?_, ?_, ?_, ?_,
    accounts.sizeBound⟩
  · intro freed member
    rcases List.mem_cons.mp member with rfl | old
    · exact bound
    · exact accounts.freeBound freed old
  · intro other kept holds
    by_cases same : other = owner
    · simp [same] at holds
    · rw [Function.update_of_ne same] at holds
      obtain ⟨inside, below, unfreed⟩ := accounts.ownBound other kept holds
      refine ⟨inside, below, ?_⟩
      intro member
      rcases List.mem_cons.mp member with rfl | old
      · exact same (accounts.exclusive other owner kept holds held)
      · exact unfreed old
  · intro first second shared holdsFirst holdsSecond
    by_cases sameFirst : first = owner
    · simp [sameFirst] at holdsFirst
    · by_cases sameSecond : second = owner
      · simp [sameSecond] at holdsSecond
      · rw [Function.update_of_ne sameFirst] at holdsFirst
        rw [Function.update_of_ne sameSecond] at holdsSecond
        exact accounts.exclusive first second shared holdsFirst holdsSecond
  · intro position below
    rcases accounts.covered position below with old | ⟨other, holds⟩
    · exact Or.inl (List.mem_cons_of_mem index old)
    · by_cases same : other = owner
      · rw [same, held] at holds
        exact Or.inl (by simp [Option.some.inj holds])
      · exact Or.inr ⟨other, by rw [Function.update_of_ne same]; exact holds⟩

/-- Handing an index that nobody holds and that leaves the free list to `owner`. -/
theorem accounts_grant {rest : List Nat} {grown : Nat} {owner : Owner} {index : Nat}
    (accounts : Accounts owners own free size) (inside : owner ∈ owners) (idle : own owner = none)
    (unheld : ∀ other, own other ≠ some index) (restDistinct : rest.Nodup)
    (restFree : ∀ kept, kept ∈ rest ↔ kept ∈ free ∧ kept ≠ index) (indexBound : index < grown)
    (sizes : ∀ position, position < grown ↔ position < size ∨ position = index)
    (grownBound : grown ≤ owners.card) :
    Accounts owners (Function.update own owner (some index)) rest grown := by
  refine ⟨restDistinct, ?_, ?_, ?_, ?_, grownBound⟩
  · intro kept member
    exact (sizes kept).mpr (Or.inl (accounts.freeBound kept ((restFree kept).mp member).1))
  · intro other kept holds
    by_cases same : other = owner
    · subst same
      rw [Function.update_self] at holds
      cases holds
      exact ⟨inside, indexBound, fun member => ((restFree index).mp member).2 rfl⟩
    · rw [Function.update_of_ne same] at holds
      obtain ⟨member, below, unfreed⟩ := accounts.ownBound other kept holds
      exact ⟨member, (sizes kept).mpr (Or.inl below),
        fun kept => unfreed ((restFree _).mp kept).1⟩
  · intro first second shared holdsFirst holdsSecond
    by_cases sameFirst : first = owner
    · by_cases sameSecond : second = owner
      · rw [sameFirst, sameSecond]
      · rw [sameFirst, Function.update_self] at holdsFirst
        rw [Function.update_of_ne sameSecond, ← holdsFirst] at holdsSecond
        exact absurd holdsSecond (unheld second)
    · by_cases sameSecond : second = owner
      · rw [sameSecond, Function.update_self] at holdsSecond
        rw [Function.update_of_ne sameFirst, ← holdsSecond] at holdsFirst
        exact absurd holdsFirst (unheld first)
      · rw [Function.update_of_ne sameFirst] at holdsFirst
        rw [Function.update_of_ne sameSecond] at holdsSecond
        exact accounts.exclusive first second shared holdsFirst holdsSecond
  · intro position below
    by_cases granted : position = index
    · exact Or.inr ⟨owner, by rw [Function.update_self, granted]⟩
    · have old : position < size := by
        rcases (sizes position).mp below with old | same
        · exact old
        · exact absurd same granted
      rcases accounts.covered position old with freed | ⟨other, holds⟩
      · exact Or.inl ((restFree position).mpr ⟨freed, granted⟩)
      · refine Or.inr ⟨other, ?_⟩
        rw [Function.update_of_ne ?_]
        · exact holds
        · intro same
          rw [same, idle] at holds
          simp at holds

theorem accounts_reuse {rest : List Nat} {owner : Owner} {index : Nat}
    (accounts : Accounts owners own (index :: rest) size) (inside : owner ∈ owners)
    (idle : own owner = none) :
    Accounts owners (Function.update own owner (some index)) rest size := by
  obtain ⟨fresh, restDistinct⟩ := List.nodup_cons.mp accounts.freeDistinct
  have below := accounts.freeBound index (by simp)
  apply accounts_grant accounts inside idle _ restDistinct _ below _ accounts.sizeBound
  · intro other holds
    exact (accounts.ownBound other index holds).2.2 (by simp)
  · intro kept
    constructor
    · intro member
      exact ⟨by simp [member], fun same => fresh (same ▸ member)⟩
    · rintro ⟨member, different⟩
      exact (List.mem_cons.mp member).resolve_left different
  · intro position
    constructor
    · exact Or.inl
    · rintro (old | same)
      · exact old
      · exact same ▸ below

/-- With an empty free list every index is held, so an owner without one leaves room. -/
theorem accounts_room {owner : Owner} (accounts : Accounts owners own [] size)
    (inside : owner ∈ owners) (idle : own owner = none) : size < owners.card := by
  have holders : ∀ index : Fin size, ∃ holder, own holder = some index.val := by
    intro index
    rcases accounts.covered index.val index.isLt with member | holder
    · simp at member
    · exact holder
  choose holder holds using holders
  have injective : Function.Injective holder := by
    intro left right same
    have equal : some left.val = some right.val := by rw [← holds left, ← holds right, same]
    exact Fin.ext (Option.some.inj equal)
  have image : Finset.univ.image holder ⊆ owners.erase owner := by
    intro position member
    obtain ⟨index, _, rfl⟩ := Finset.mem_image.mp member
    refine Finset.mem_erase.mpr ⟨?_, (accounts.ownBound _ _ (holds index)).1⟩
    intro same
    have idleHolds := holds index
    rw [same, idle] at idleHolds
    simp at idleHolds
  have count := Finset.card_le_card image
  rw [Finset.card_image_of_injective _ injective, Finset.card_univ, Fintype.card_fin,
    Finset.card_erase_of_mem inside] at count
  have positive : 0 < owners.card := Finset.card_pos.mpr ⟨owner, inside⟩
  omega

theorem accounts_extend {owner : Owner} (accounts : Accounts owners own [] size)
    (inside : owner ∈ owners) (idle : own owner = none) :
    Accounts owners (Function.update own owner (some size)) [] (size + 1) := by
  apply accounts_grant accounts inside idle _ List.nodup_nil _ (Nat.lt_succ_self size) _
    (accounts_room accounts inside idle)
  · intro other holds
    exact absurd (accounts.ownBound other size holds).2.1 (Nat.lt_irrefl size)
  · simp
  · intro position
    omega

theorem accounts_released (accounts : Accounts owners own free size)
    {owner : Owner} {index freed : Nat} (held : own owner = some index)
    (after : Accounts owners (Function.update own owner none) (freed :: free) size) :
    freed = index := by
  obtain ⟨_, bound, notFree⟩ := accounts.ownBound owner index held
  rcases after.covered index bound with listed | ⟨other, holds⟩
  · rcases List.mem_cons.mp listed with same | old
    · exact same.symm
    · exact absurd old notFree
  · by_cases same : other = owner
    · simp [same] at holds
    · rw [Function.update_of_ne same] at holds
      exact absurd (accounts.exclusive other owner index holds held) same

theorem accounts_unheld (accounts : Accounts owners own free size) {owner : Owner} {index : Nat}
    {rest : List Nat} {grown : Nat} (new : index ∈ free ∨ index = size)
    (fewer : ∀ kept ∈ rest, kept ∈ free) (grows : size ≤ grown)
    (after : Accounts owners (Function.update own owner (some index)) rest grown) :
    own owner = none := by
  rw [Option.eq_none_iff_forall_ne_some]
  intro old held
  obtain ⟨_, bound, notFree⟩ := accounts.ownBound owner old held
  rcases after.covered old (by omega) with listed | ⟨other, holds⟩
  · exact notFree (fewer old listed)
  · by_cases same : other = owner
    · rw [same, Function.update_self] at holds
      obtain rfl := Option.some.inj holds
      rcases new with free | fresh
      · exact notFree free
      · omega
    · rw [Function.update_of_ne same] at holds
      exact same (accounts.exclusive other owner old holds held)

end PulseMap.FreeList
