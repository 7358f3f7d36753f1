import PulseMap.Sync.Attribution
import PulseMap.Sync.Located

/-!
The slab sections of one call in their order: the index of a slot is freed at most once, then
at most one index is allocated for the slot, and the slot is rewritten before its bucket is
unlocked. What a call has freed and allocated is read off its actions, and the slots in
transition are the ones these actions name.
-/

namespace PulseMap

/-- The slab index that a thread has freed and the one it has allocated for a slot that it
has not rewritten or cleared yet. -/
structure SlabWork where
  freed : Option (Position × Nat)
  allocated : Option (Position × Nat)

namespace SlabWork

def idle : SlabWork := ⟨none, none⟩

def next (self : SlabWork) : (action : SyncAction) → action.Response → SlabWork
  | .slabFree bucketIdx slot idx, _ => { self with freed := some ((bucketIdx, slot), idx) }
  | .slabAlloc bucketIdx slot _ _, answer =>
      { self with allocated := answer.map fun idx => ((bucketIdx, slot), idx) }
  | .updateSlot _ _ _ _ _, _ => idle
  | .placeSlot _ _ _ _ _ _, _ => idle
  | .clearSlot _ _ _, _ => idle
  | _, _ => self

def At (self : SlabWork) (position : Position) : Prop :=
  (∀ place idx, self.freed = some (place, idx) → place = position) ∧
    ∀ place idx, self.allocated = some (place, idx) → place = position

def Allows (self : SlabWork) : SyncAction → Prop
  | .slabFree _ _ _ => self = idle
  | .slabAlloc bucketIdx slot _ _ => self.allocated = none ∧ self.At (bucketIdx, slot)
  | .updateSlot bucketIdx slot _ _ _ => self.At (bucketIdx, slot)
  | .placeSlot bucketIdx slot _ _ _ _ => self.At (bucketIdx, slot)
  | .clearSlot bucketIdx slot _ => self.At (bucketIdx, slot)
  | .unlockBucket _ => self = idle
  | _ => True

theorem idle_at (position : Position) : idle.At position := ⟨by simp [idle], by simp [idle]⟩

end SlabWork

/-- The order of the slab sections in a critical section. -/
def slabDiscipline (config : SyncConfig) : Discipline (syncMachine config) where
  Local := SlabWork
  Allows := SlabWork.Allows
  next := SlabWork.next

namespace SyncProgram

variable {config : SyncConfig} {Result Next : Type}

def Works (program : SyncProgram config Result) (left : SlabWork → Prop) (work : SlabWork) : Prop :=
  (slabDiscipline config).Follows program (fun _ place => left place) work

def Clean (program : SyncProgram config Result) : Prop := program.Works (· = .idle) .idle

variable {left middle : SlabWork → Prop} {work : SlabWork}

theorem works_bind {program : SyncProgram config Result} {next : Result → SyncProgram config Next}
    (first : program.Works middle work)
    (rest : ∀ result after, middle after → (next result).Works left after) :
    (program >>= next).Works left work := by
  apply Discipline.follows_bind
  apply Discipline.follows_mono first
  exact rest

theorem works_if {test : Prop} [Decidable test] {yes no : SyncProgram config Result}
    (onYes : yes.Works left work) (onNo : no.Works left work) :
    (if test then yes else no).Works left work := by
  split_ifs <;> assumption

theorem works_atomic {action : SyncAction} {next : action.Response → SyncProgram config Next}
    (allows : work.Allows action)
    (rest : ∀ response, (next response).Works left (work.next action response)) :
    (atomic action >>= next).Works left work := ⟨allows, rest⟩

theorem works_or_panic {answer : Option Result} {next : Result → SyncProgram config Next}
    (rest : ∀ result, answer = some result → (next result).Works left work) :
    (orPanic answer >>= next).Works left work := by
  cases answer with
  | none => trivial
  | some result => exact rest result rfl

theorem clean_bind {program : SyncProgram config Result} {next : Result → SyncProgram config Next}
    (first : program.Clean) (rest : ∀ result, (next result).Clean) : (program >>= next).Clean := by
  apply works_bind first
  rintro result _ rfl
  exact rest result

theorem idle_permitted {call : SyncCall} (reads : ¬call.Writes) {action : SyncAction}
    (permits : call.Permits action) : SlabWork.idle.Allows action ∧
      ∀ response, SlabWork.idle.next action response = .idle := by
  cases action with
  | slabFree bucketIdx slot idx => exact absurd permits reads
  | slabAlloc bucketIdx slot key value => exact absurd permits reads
  | updateSlot bucketIdx slot data key value => exact ⟨SlabWork.idle_at _, fun _ => rfl⟩
  | placeSlot bucketIdx slot h2 data key value => exact ⟨SlabWork.idle_at _, fun _ => rfl⟩
  | clearSlot bucketIdx slot key => exact ⟨SlabWork.idle_at _, fun _ => rfl⟩
  | unlockBucket bucketIdx => exact ⟨rfl, fun _ => rfl⟩
  | _ => exact ⟨trivial, fun _ => rfl⟩

theorem clean_of_runs {call : SyncCall} (reads : ¬call.Writes) {program : SyncProgram config Result}
    (runs : call.Runs program) : program.Clean := by
  induction program with
  | done result => rfl
  | panic => trivial
  | act action rest induction =>
      obtain ⟨permits, later⟩ := runs
      obtain ⟨allows, same⟩ := idle_permitted reads permits
      refine ⟨allows, fun response => ?_⟩
      change (slabDiscipline config).Follows (rest response) _ (SlabWork.idle.next action response)
      rw [same response]
      exact induction response (later response)

theorem clean_reader {program : SyncProgram config Result}
    (runs : (SyncCall.resize 0).Runs program) : program.Clean := by
  apply clean_of_runs _ runs
  exact id

/-! ### Critical sections -/

section Sections

variable {bucketIdx : Nat} {slot : Fin 4}

theorem works_release_slab (data : Slot) :
    (releaseSlab bucketIdx slot data : SyncProgram config Unit).Works
      (fun after => after.allocated = none ∧ after.At (bucketIdx, slot)) .idle := by
  apply works_if
  · refine ⟨rfl, fun _ => ⟨rfl, ?_, (SlabWork.idle_at _).2⟩⟩
    intro place idx freed
    exact (Prod.mk.inj (Option.some.inj freed)).1.symm
  · exact ⟨rfl, SlabWork.idle_at _⟩

theorem works_store_pair (data : Slot) (key value : Bytes) (hr : HashResult)
    (unallocated : work.allocated = none) (here : work.At (bucketIdx, slot)) :
    (storePair bucketIdx slot data key value hr : SyncProgram config Slot).Works
      (fun after => after.At (bucketIdx, slot)) work := by
  apply works_if
  · exact here
  · refine works_atomic ⟨unallocated, here⟩ fun answer => works_or_panic fun idx granted => ?_
    refine ⟨here.1, ?_⟩
    intro place other allocated
    rw [granted] at allocated
    exact (Prod.mk.inj (Option.some.inj allocated)).1.symm

theorem clean_stamp_epoch (ttl : Word) :
    (stampEpoch bucketIdx slot ttl : SyncProgram config Unit).Clean :=
  clean_reader (SyncCall.runs_stamp_epoch _ _ _)

theorem works_place_into (bucket : Bucket) (isEviction : Bool) (key value : Bytes) (ttl : Word)
    (unallocated : work.allocated = none) (here : work.At (bucketIdx, slot)) :
    (placeInto bucketIdx bucket slot isEviction key value ttl : SyncProgram config Unit).Works
      (· = .idle) work := by
  apply works_bind (works_store_pair (bucket.slots slot) key value _ unallocated here)
  intro data after placed
  refine works_atomic placed fun _ => works_bind (clean_stamp_epoch ttl) ?_
  rintro _ _ rfl
  exact works_if rfl ⟨trivial, fun _ => rfl⟩

theorem clean_find_slot (bucket : Bucket) (key : Bytes) (hr : HashResult) (slots : List (Fin 4)) :
    (findSlot bucket key hr slots : SyncProgram config _).Clean :=
  clean_reader (SyncCall.runs_find_slot _ _ _ _)

theorem clean_insert_body (key value : Bytes) (ttl : Word) (bucket : Bucket) :
    (insertBody key value ttl bucketIdx bucket : SyncProgram config Unit).Clean := by
  refine clean_bind (clean_find_slot _ _ _ _) fun found => ?_
  cases found with
  | some slot =>
      apply works_bind (works_release_slab _)
      rintro _ freed ⟨unallocated, here⟩
      apply works_bind (works_store_pair _ _ _ _ unallocated here)
      intro data after placed
      exact works_atomic placed fun _ => clean_stamp_epoch ttl
  | none =>
      dsimp only
      split
      · exact works_place_into bucket false key value ttl rfl (SlabWork.idle_at _)
      · split
        · apply works_bind (works_release_slab _)
          rintro _ freed ⟨unallocated, here⟩
          exact works_atomic trivial fun _ =>
            works_place_into bucket true key value ttl unallocated here
        · rfl

theorem clean_remove_body (key : Bytes) (bucket : Bucket) :
    (removeBody key bucketIdx bucket : SyncProgram config Bool).Clean := by
  refine clean_bind (clean_find_slot _ _ _ _) fun found => ?_
  cases found with
  | none => exact works_atomic trivial fun _ => rfl
  | some slot =>
      apply works_bind (works_release_slab _)
      rintro _ freed ⟨_, here⟩
      exact works_atomic here fun _ => works_atomic trivial fun _ => rfl

end Sections

theorem clean_drain (budget : Nat) : (drain budget : SyncProgram config Unit).Clean := by
  induction budget with
  | zero => rfl
  | succ budget induction =>
      refine clean_bind (clean_reader SyncCall.runs_pop) fun event => ?_
      cases event with
      | none => rfl
      | some event =>
          exact clean_bind (clean_reader (SyncCall.runs_lock_bucket _)) fun _ =>
            works_atomic trivial fun _ => works_atomic rfl fun _ => induction

theorem clean_with_bucket {h1 : Word} {before : SyncProgram config Unit}
    {body : Nat → Bucket → SyncProgram config Result} (first : before.Clean)
    (inner : ∀ bucketIdx bucket, (body bucketIdx bucket).Clean) :
    (withBucket h1 before body).Clean := by
  refine clean_bind (clean_reader SyncCall.runs_read_inner) fun _ => ?_
  refine works_atomic trivial fun _ => clean_bind first fun _ => ?_
  refine clean_bind (clean_reader (SyncCall.runs_lock_bucket _)) fun _ => ?_
  refine works_atomic trivial fun bucket => clean_bind (inner _ bucket) fun _ => ?_
  exact works_atomic rfl fun _ => works_atomic trivial fun _ => rfl

theorem clean_body (call : SyncCall) : (call.body config).Clean := by
  cases call with
  | insert key value ttl =>
      refine clean_bind (clean_reader (SyncCall.runs_auto_resize trivial)) fun _ => ?_
      refine works_atomic trivial fun _ => clean_bind ?_ fun _ => rfl
      exact clean_with_bucket (clean_drain _) fun _ _ => clean_insert_body _ _ _ _
  | remove key =>
      refine clean_bind ?_ fun _ => rfl
      exact clean_with_bucket rfl fun _ _ => clean_remove_body _ _
  | _ => exact clean_of_runs id (SyncCall.runs_body _)

theorem clean_program (call : SyncCall) : (call.program config).Clean :=
  works_atomic trivial fun _ => clean_bind (clean_body call) fun _ => ⟨trivial, fun _ => rfl⟩

end SyncProgram

/-! ### The slots in transition -/

namespace SlabWork

def moving (self : SlabWork) : Option (Position × Option Nat) :=
  match self.allocated with
  | some (position, idx) => some (position, some idx)
  | none => self.freed.map fun work => (work.1, none)

end SlabWork

/-- The work of a thread is the transition of the bucket it has locked. -/
structure Worked (thread : Nat) (work : SlabWork) (map : SyncMap) : Prop where
  together : ∃ position, work.At position
  locked : ∀ position held, work.moving = some (position, held) →
    map.locks position.1 = some thread
  transit : ∀ bucketIdx, map.locks bucketIdx = some thread →
    map.transit bucketIdx = work.moving.map fun moving => (moving.1.2, moving.2)
  bytes : ∀ position held idx, work.moving = some (position, held) →
    (map.layout.buckets position.1).slotIndex position.2 = some idx →
    work.freed = some (position, idx)

section Step

variable {config : SyncConfig} {map after : SyncMap} {thread : Nat} {work : SlabWork}

theorem worked_kept (worked : Worked thread work map)
    (locks : ∀ bucketIdx, after.locks bucketIdx = some thread ↔ map.locks bucketIdx = some thread)
    (transit : ∀ bucketIdx, map.locks bucketIdx = some thread →
      after.transit bucketIdx = map.transit bucketIdx)
    (bytes : ∀ bucketIdx slot, map.locks bucketIdx = some thread →
      (after.layout.buckets bucketIdx).slotIndex slot =
        (map.layout.buckets bucketIdx).slotIndex slot) : Worked thread work after where
  together := worked.together
  locked := fun position held moving => (locks position.1).mpr (worked.locked position held moving)
  transit := by
    intro bucketIdx holds
    have before := (locks bucketIdx).mp holds
    rw [transit bucketIdx before]
    exact worked.transit bucketIdx before
  bytes := by
    intro position held idx moving found
    rw [bytes position.1 position.2 (worked.locked position held moving)] at found
    exact worked.bytes position held idx moving found

theorem worked_idle (still : ∀ bucketIdx, map.locks bucketIdx = some thread →
    map.transit bucketIdx = none) : Worked thread .idle map where
  together := ⟨(0, 0), SlabWork.idle_at _⟩
  locked := by simp [SlabWork.moving, SlabWork.idle]
  transit := still
  bytes := by simp [SlabWork.moving, SlabWork.idle]

theorem idle_of_unlocked (worked : Worked thread work map)
    (none : ∀ bucketIdx, map.locks bucketIdx ≠ some thread) : work = .idle := by
  obtain ⟨freed, allocated⟩ := work
  cases allocated with
  | some entry => exact absurd (worked.locked entry.1 (some entry.2) rfl) (none _)
  | none =>
      cases freed with
      | some entry => exact absurd (worked.locked entry.1 Option.none rfl) (none _)
      | none => rfl

def SyncAction.moves : SyncAction → Option Nat
  | slabFree bucketIdx _ _ => some bucketIdx
  | slabAlloc bucketIdx _ _ _ => some bucketIdx
  | updateSlot bucketIdx _ _ _ _ => some bucketIdx
  | placeSlot bucketIdx _ _ _ _ _ => some bucketIdx
  | clearSlot bucketIdx _ _ => some bucketIdx
  | _ => none

variable {places : Nat → Standing} {action : SyncAction} {response : action.Response}

theorem moves_inside (located : Located places map) (allows : (places thread).Allows config action)
    {bucketIdx : Nat} (moves : action.moves = some bucketIdx) :
    map.locks bucketIdx = some thread := by
  cases action with
  | slabFree other slot idx =>
      obtain rfl := Option.some.inj moves
      exact located.locks allows
  | slabAlloc other slot key value =>
      obtain rfl := Option.some.inj moves
      exact located.locks allows
  | updateSlot other slot data key value =>
      obtain rfl := Option.some.inj moves
      exact located.locks allows.1
  | placeSlot other slot h2 data key value =>
      obtain rfl := Option.some.inj moves
      exact located.locks allows.1
  | clearSlot other slot key =>
      obtain rfl := Option.some.inj moves
      exact located.locks allows.1
  | _ => cases moves

theorem transit_act (performed : map.perform config thread action = some (response, after))
    {bucketIdx : Nat} (other : action.moves ≠ some bucketIdx) :
    after.transit bucketIdx = map.transit bucketIdx := by
  have beside : ∀ place, action.moves = some place → bucketIdx ≠ place := by
    rintro place moves rfl
    exact other moves
  cases action with
  | slabFree place slot idx =>
      simp only [SyncMap.perform] at performed
      split_ifs at performed
      obtain rfl := (Prod.mk.inj (Option.some.inj performed)).2
      exact Function.update_of_ne (beside place rfl) _ _
  | slabAlloc place slot key value =>
      simp only [SyncMap.perform] at performed
      split_ifs at performed
      split at performed <;> obtain rfl := (Prod.mk.inj (Option.some.inj performed)).2
      · rfl
      · exact Function.update_of_ne (beside place rfl) _ _
  | updateSlot place slot data key value =>
      obtain rfl := (Prod.mk.inj (Option.some.inj performed)).2
      exact Function.update_of_ne (beside place rfl) _ _
  | placeSlot place slot h2 data key value =>
      obtain rfl := (Prod.mk.inj (Option.some.inj performed)).2
      exact Function.update_of_ne (beside place rfl) _ _
  | clearSlot place slot key =>
      obtain rfl := (Prod.mk.inj (Option.some.inj performed)).2
      exact Function.update_of_ne (beside place rfl) _ _
  | _ =>
      simp only [SyncMap.perform] at performed
      repeat' split at performed
      all_goals first
        | (obtain rfl := (Prod.mk.inj (Option.some.inj performed)).2; rfl)
        | simp at performed

theorem worked_other {other : Nat} (worked : Worked other work map) (located : Located places map)
    (spares : Spares thread map after) (different : other ≠ thread)
    (allows : (places thread).Allows config action)
    (performed : map.perform config thread action = some (response, after)) :
    Worked other work after := by
  apply worked_kept worked (spares.locks other different)
  · intro bucketIdx holds
    apply transit_act performed
    intro moves
    rw [moves_inside located allows moves] at holds
    exact different (Option.some.inj holds).symm
  · intro bucketIdx slot holds
    rw [spares.buckets other different bucketIdx holds]

theorem worked_free {bucketIdx idx : Nat} {slot : Fin 4} (worked : Worked thread .idle map)
    (invariant : map.Invariant config False)
    (later : ((map.setPool (map.layout.slabPool.free idx)).setTransit bucketIdx
      (some (slot, none))).Invariant config False)
    (holds : map.locks bucketIdx = some thread) :
    Worked thread ⟨some ((bucketIdx, slot), idx), none⟩
      ((map.setPool (map.layout.slabPool.free idx)).setTransit bucketIdx (some (slot, none))) := by
  have still : map.transit bucketIdx = none := worked.transit bucketIdx holds
  have moves : Layout.Moves map.transit bucketIdx slot := by
    intro moving held found
    rw [still] at found
    cases found
  have accounts := later.layout.accounts
  have shift : (map.layout.own (Function.update map.transit bucketIdx (some (slot, none)))) =
      Function.update (map.layout.own map.transit) (bucketIdx, slot) none :=
    Layout.own_set_transit moves none
  refine ⟨⟨(bucketIdx, slot), ?_, by simp⟩, ?_, ?_, ?_⟩
  · intro place other freed
    exact (Prod.mk.inj (Option.some.inj freed)).1.symm
  · intro position held moving
    obtain ⟨rfl, _⟩ := Prod.mk.inj (Option.some.inj moving)
    exact holds
  · intro other locked
    obtain rfl := invariant.single bucketIdx other thread holds locked
    simp [SyncMap.setTransit, SlabWork.moving]
  · intro position held index moving found
    obtain ⟨rfl, _⟩ := Prod.mk.inj (Option.some.inj moving)
    have owned : map.layout.own map.transit (bucketIdx, slot) = some index := by
      rw [Layout.own_settled (by simp [still])]
      exact found
    have freed : idx = index := by
      apply FreeList.accounts_released invariant.layout.accounts owned
      rw [← shift]
      exact accounts
    rw [freed]

theorem alloc_takes {pool grown : SlabPool} {key value : Bytes} {idx : Nat}
    (allocated : pool.alloc key value = some (idx, grown)) :
    (idx ∈ pool.freeList ∨ idx = pool.entries.length) ∧
      (∀ kept ∈ grown.freeList, kept ∈ pool.freeList) ∧
      pool.entries.length ≤ grown.entries.length := by
  unfold SlabPool.alloc at allocated
  split at allocated
  · rename_i first rest free
    obtain ⟨entry, _, same⟩ := Option.bind_eq_some_iff.mp allocated
    obtain ⟨rfl, rfl⟩ := Prod.mk.inj (Option.some.inj same)
    refine ⟨Or.inl (by simp [free]), ?_, by simp⟩
    intro kept member
    rw [free]
    exact List.mem_cons_of_mem _ member
  · obtain ⟨rfl, rfl⟩ := Prod.mk.inj (Option.some.inj allocated)
    exact ⟨Or.inr rfl, by simp, by simp⟩

theorem worked_alloc {bucketIdx idx : Nat} {slot : Fin 4} {key value : Bytes} {grown : SlabPool}
    (worked : Worked thread work map) (invariant : map.Invariant config False)
    (later : ((map.setPool grown).setTransit bucketIdx (some (slot, some idx))).Invariant config False)
    (holds : map.locks bucketIdx = some thread) (unallocated : work.allocated = none)
    (here : work.At (bucketIdx, slot))
    (allocated : map.layout.slabPool.alloc key value = some (idx, grown)) :
    Worked thread { work with allocated := some ((bucketIdx, slot), idx) }
      ((map.setPool grown).setTransit bucketIdx (some (slot, some idx))) := by
  obtain ⟨new, fewer, grows⟩ := alloc_takes allocated
  have before := worked.transit bucketIdx holds
  rw [SlabWork.moving, unallocated, Option.map_map] at before
  have moves : Layout.Moves map.transit bucketIdx slot := by
    intro moving held found
    rw [before] at found
    obtain ⟨⟨place, old⟩, freed, same⟩ := Option.map_eq_some_iff.mp found
    obtain rfl := here.1 place old freed
    exact (Prod.mk.inj same).1.symm
  have accounts := later.layout.accounts
  have shift : (map.layout.own (Function.update map.transit bucketIdx (some (slot, some idx)))) =
      Function.update (map.layout.own map.transit) (bucketIdx, slot) (some idx) :=
    Layout.own_set_transit moves (some idx)
  have idle : map.layout.own map.transit (bucketIdx, slot) = none := by
    apply FreeList.accounts_unheld invariant.layout.accounts new fewer grows
    rw [← shift]
    exact accounts
  refine ⟨⟨(bucketIdx, slot), here.1, ?_⟩, ?_, ?_, ?_⟩
  · intro place other granted
    exact (Prod.mk.inj (Option.some.inj granted)).1.symm
  · intro position held moving
    obtain ⟨rfl, _⟩ := Prod.mk.inj (Option.some.inj moving)
    exact holds
  · intro other locked
    obtain rfl := invariant.single bucketIdx other thread holds locked
    simp [SyncMap.setTransit, SlabWork.moving]
  · intro position held index moving found
    obtain ⟨rfl, _⟩ := Prod.mk.inj (Option.some.inj moving)
    cases freed : work.freed with
    | none =>
        -- The slot was not in transition: it would own the index in its bytes.
        rw [freed] at before
        rw [Layout.own_settled (by simp [before])] at idle
        cases idle.symm.trans found
    | some entry =>
        obtain ⟨place, old⟩ := entry
        obtain rfl := here.1 place old freed
        have kept := worked.bytes (bucketIdx, slot) none index
          (by simp [SlabWork.moving, unallocated, freed]) found
        rw [← freed]
        exact kept

theorem worked_write {bucketIdx : Nat} {slot : Fin 4} {written : Bucket}
    {entry : Option (Bytes × Bytes)} {event : SyncEvent} (invariant : map.Invariant config False)
    (holds : map.locks bucketIdx = some thread) :
    Worked thread .idle (map.writeSlot thread bucketIdx slot written entry event) := by
  apply worked_idle
  intro other locked
  obtain rfl := invariant.single bucketIdx other thread holds locked
  exact Function.update_self ..

theorem worked_still (worked : Worked thread work map) (locks : after.locks = map.locks)
    (transit : after.transit = map.transit)
    (bytes : ∀ bucketIdx slot, (after.layout.buckets bucketIdx).slotIndex slot =
      (map.layout.buckets bucketIdx).slotIndex slot) : Worked thread work after :=
  worked_kept worked (fun _ => by rw [locks]) (fun _ _ => by rw [transit])
    fun bucketIdx slot _ => bytes bucketIdx slot

theorem worked_own (worked : Worked thread work map) (located : Located places map)
    (invariant : map.Invariant config False) (later : after.Invariant config False)
    (allows : (places thread).Allows config action) (works : work.Allows action)
    (performed : map.perform config thread action = some (response, after)) :
    Worked thread (work.next action response) after := by
  cases action with
  | slabFree bucketIdx slot idx =>
      obtain rfl : work = .idle := works
      simp only [SyncMap.perform] at performed
      split_ifs at performed
      obtain rfl := (Prod.mk.inj (Option.some.inj performed)).2
      exact worked_free worked invariant later (located.locks allows)
  | slabAlloc bucketIdx slot key value =>
      simp only [SyncMap.perform] at performed
      split_ifs at performed
      split at performed <;> obtain ⟨rfl, rfl⟩ := Prod.mk.inj (Option.some.inj performed)
      · obtain ⟨freed, allocated⟩ := work
        obtain rfl : allocated = none := works.1
        exact worked
      · rename_i allocated
        exact worked_alloc worked invariant later (located.locks allows) works.1 works.2 allocated
  | updateSlot bucketIdx slot data key value =>
      obtain rfl := (Prod.mk.inj (Option.some.inj performed)).2
      exact worked_write invariant (located.locks allows.1)
  | placeSlot bucketIdx slot h2 data key value =>
      obtain rfl := (Prod.mk.inj (Option.some.inj performed)).2
      exact worked_write invariant (located.locks allows.1)
  | clearSlot bucketIdx slot key =>
      obtain rfl := (Prod.mk.inj (Option.some.inj performed)).2
      exact worked_write invariant (located.locks allows.1)
  | lockBucket bucketIdx =>
      have outside : ∀ other, map.locks other ≠ some thread := fun other =>
        located.unlocked (by simp [allows.1])
      obtain rfl := idle_of_unlocked worked outside
      simp only [SyncMap.perform] at performed
      split_ifs at performed with beyond free
      · obtain rfl := (Prod.mk.inj (Option.some.inj performed)).2
        exact worked
      · obtain rfl := (Prod.mk.inj (Option.some.inj performed)).2
        apply worked_idle
        intro other locked
        by_cases same : other = bucketIdx
        · rw [same]
          exact invariant.moving bucketIdx free
        · simp only [Function.update_of_ne same] at locked
          exact absurd locked (outside other)
  | unlockBucket bucketIdx =>
      obtain rfl : work = .idle := works
      obtain rfl := (Prod.mk.inj (Option.some.inj performed)).2
      apply worked_idle
      intro other locked
      by_cases same : other = bucketIdx
      · simp [same] at locked
      · simp only [Function.update_of_ne same] at locked
        exact worked.transit other locked
  | rehash newActual =>
      have still := located.still (invariant.exclusive thread (located.writes allows.1))
      simp only [SyncMap.perform] at performed
      split at performed <;> obtain rfl := (Prod.mk.inj (Option.some.inj performed)).2
      · exact worked
      · exact worked
      · obtain rfl := idle_of_unlocked worked fun other => by simp [still other]
        exact worked_idle fun other locked => by cases locked
  | onAccess bucketIdx slot =>
      obtain rfl := (Prod.mk.inj (Option.some.inj performed)).2
      have bytes : ∀ other place, (Function.update map.layout.buckets bucketIdx
          { map.layout.buckets bucketIdx with
            metaWord := (map.layout.buckets bucketIdx).metaWord.onAccess slot } other).slotIndex place =
          (map.layout.buckets other).slotIndex place := by
        intro other place
        by_cases same : other = bucketIdx
        · subst same
          simp [Bucket.slotIndex]
        · rw [Function.update_of_ne same]
      exact worked_still worked rfl rfl bytes
  | readLock =>
      simp only [SyncMap.perform] at performed
      split_ifs at performed
      obtain rfl := (Prod.mk.inj (Option.some.inj performed)).2
      exact worked_still worked rfl rfl fun _ _ => rfl
  | writeLock =>
      simp only [SyncMap.perform] at performed
      split_ifs at performed
      obtain rfl := (Prod.mk.inj (Option.some.inj performed)).2
      exact worked_still worked rfl rfl fun _ _ => rfl
  | readUnlock =>
      obtain rfl := (Prod.mk.inj (Option.some.inj performed)).2
      exact worked_still worked rfl rfl fun _ _ => rfl
  | writeUnlock =>
      obtain rfl := (Prod.mk.inj (Option.some.inj performed)).2
      exact worked_still worked rfl rfl fun _ _ => rfl
  | poison =>
      obtain rfl := (Prod.mk.inj (Option.some.inj performed)).2
      exact worked_still worked rfl rfl fun _ _ => rfl
  | storeStamp bucketIdx slot stamp =>
      obtain rfl := (Prod.mk.inj (Option.some.inj performed)).2
      exact worked_still worked rfl rfl fun _ _ => rfl
  | addCount =>
      obtain rfl := (Prod.mk.inj (Option.some.inj performed)).2
      exact worked_still worked rfl rfl fun _ _ => rfl
  | subCount =>
      obtain rfl := (Prod.mk.inj (Option.some.inj performed)).2
      exact worked_still worked rfl rfl fun _ _ => rfl
  | storeCount count =>
      obtain rfl := (Prod.mk.inj (Option.some.inj performed)).2
      exact worked_still worked rfl rfl fun _ _ => rfl
  | addEvictionCount =>
      obtain rfl := (Prod.mk.inj (Option.some.inj performed)).2
      exact worked_still worked rfl rfl fun _ _ => rfl
  | addEpoch =>
      obtain rfl := (Prod.mk.inj (Option.some.inj performed)).2
      exact worked_still worked rfl rfl fun _ _ => rfl
  | _ =>
      have same := perform_quiet (by trivial) performed
      apply worked_still worked same.locks
      · funext bucketIdx
        exact transit_act performed (by simp [SyncAction.moves])
      · intro bucketIdx slot
        rw [same.buckets]

end Step

/-! ### Schedules -/

/-- The slab work that the actions of a thread have left over. -/
def slabWork {config : SyncConfig} (thread : Nat) (events : SyncEvents config) : SlabWork :=
  (own thread events).foldl (fun work step => work.next step.1 step.2) .idle

theorem slab_work_called {config : SyncConfig} {thread other : Nat} {call : SyncCall}
    {past : SyncEvents config} : slabWork thread (past ++ [.called other call]) = slabWork thread past := by
  simp [slabWork, own]

theorem slab_work_acted {config : SyncConfig} {thread other : Nat} {action : SyncAction}
    {response : action.Response} {past : SyncEvents config} :
    slabWork thread (past ++ [.acted other action response]) =
      if other = thread then (slabWork thread past).next action response else slabWork thread past := by
  unfold slabWork own
  rw [List.filterMap_append, List.foldl_append]
  split_ifs with same <;> simp [same]

def Accrued {config : SyncConfig} (past : SyncEvents config) (works : Nat → SlabWork)
    (map : SyncMap) : Prop :=
  ∀ thread, works thread = slabWork thread past ∧ Worked thread (works thread) map

section Chronicle

variable {config : SyncConfig} {past : SyncEvents config} {map after : SyncMap} {thread : Nat}
  {places : Nat → Standing} {works : Nat → SlabWork}

theorem accrued_called (accrued : Accrued past works map) (done : works thread = .idle)
    (call : SyncCall) :
    Accrued (past ++ [.called thread call]) (Function.update works thread .idle) map := by
  intro other
  rw [slab_work_called, ← done, Function.update_eq_self]
  exact accrued other

theorem accrued_act {action : SyncAction} {response : action.Response}
    (accrued : Accrued past works map) (located : Located places map)
    (invariant : map.Invariant config False) (later : after.Invariant config False)
    (allows : (places thread).Allows config action) (order : (works thread).Allows action)
    (performed : map.perform config thread action = some (response, after)) :
    Accrued (past ++ [.acted thread action response])
      (Function.update works thread ((works thread).next action response)) after := by
  have spares := spares_act located (fun _ writes => invariant.exclusive _ writes) allows performed
  intro other
  obtain ⟨accumulated, worked⟩ := accrued other
  rw [slab_work_acted]
  by_cases same : other = thread
  · subst same
    rw [Function.update_self, if_pos rfl, ← accumulated]
    exact ⟨rfl, worked_own worked located invariant later allows order performed⟩
  · rw [Function.update_of_ne same, if_neg (Ne.symm same)]
    exact ⟨accumulated, worked_other worked located spares same allows performed⟩

def Posted (past : SyncEvents config) (posts : Nat → Standing × SlabWork) (map : SyncMap) : Prop :=
  Located (Prod.fst ∘ posts) map ∧ Accrued past (Prod.snd ∘ posts) map

variable {posts : Nat → Standing × SlabWork}

theorem posted_called (posted : Posted past posts map) (idle : (posts thread).1.Idle)
    (done : (posts thread).2 = .idle) (call : SyncCall) :
    Posted (past ++ [.called thread call]) (Function.update posts thread (.start call, .idle)) map := by
  unfold Posted
  rw [Function.comp_update, Function.comp_update]
  exact ⟨located_start posted.1 idle call, accrued_called posted.2 done call⟩

theorem posted_act {action : SyncAction} {response : action.Response}
    (posted : Posted past posts map) (invariant : map.Invariant config False)
    (later : after.Invariant config False) (allows : (posts thread).1.Allows config action)
    (order : (posts thread).2.Allows action)
    (performed : map.perform config thread action = some (response, after)) :
    Posted (past ++ [.acted thread action response])
      (Function.update posts thread
        ((posts thread).1.next action response, (posts thread).2.next action response)) after := by
  unfold Posted
  rw [Function.comp_update, Function.comp_update]
  exact ⟨located_act posted.1 (fun _ writes => invariant.exclusive _ writes) allows performed,
    accrued_act posted.2 posted.1 invariant later allows order performed⟩

end Chronicle

def slabChronicle (config : SyncConfig) :
    Chronicle ((standingDiscipline config).both (slabDiscipline config)) (SyncCall.program config) where
  start := fun call => (.start call, .idle)
  Final := fun place => place.1.Idle ∧ place.2 = .idle
  Allowed := fun _ _ => True
  Known := fun map => SyncMap.Invariant config False map
  Invariant := Posted
  follows := fun _ call _ =>
    Discipline.follows_both (call.program_conducts config) (SyncProgram.clean_program call)
  begins := fun _ _ _ _ call _ _ posted final => posted_called posted final.1 final.2 call
  acts := fun _ _ _ _ _ _ _ known posted allows performed later =>
    posted_act posted known later allows.1 allows.2 performed

/-- After every schedule the slots in transition are those of the work left over. -/
theorem slab_work_run (config : SyncConfig) {numBuckets : Nat} (small : numBuckets ≤ 2 ^ 56)
    (moves : SyncMoves) (sized : moves.Sized) (thread : Nat) :
    Worked thread (slabWork thread (syncTrace config numBuckets moves))
      (syncRun config numBuckets moves).shared := by
  have start : (slabChronicle config).Kept [] (fun _ => (.outside, .idle))
      (syncSystem config numBuckets) := by
    refine ⟨fun _ => ⟨⟨⟨rfl, rfl, rfl⟩, rfl, rfl⟩, rfl⟩, Located.new numBuckets, ?_⟩
    exact fun _ => ⟨rfl, worked_idle fun _ _ => rfl⟩
  have known : ∀ front back, moves = front ++ back →
      SyncMap.Invariant config False (syncRun config numBuckets front).shared := by
    intro front back split
    have sizedFront : SyncMoves.Sized front := by
      intro thread call member
      exact sized thread call (by rw [split]; exact List.mem_append_left _ member)
    exact (sync_run_holds config False small front sizedFront False.elim).invariant
  obtain ⟨places, kept⟩ := Chronicle.kept_run start moves known fun _ _ _ => trivial
  obtain ⟨accumulated, worked⟩ := kept.invariant.2 thread
  rw [accumulated] at worked
  exact worked

end PulseMap
