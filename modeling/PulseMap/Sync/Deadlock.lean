import PulseMap.Sync.LockOrder

/-!
What each thread holds along every schedule of lock operations, and that no threads wait
for each other in a cycle.
-/

namespace PulseMap

namespace Lock

theorem Blocks.symm {held wanted : Lock} (blocks : held.Blocks wanted) : wanted.Blocks held := by
  cases held <;> cases wanted <;> first | exact blocks | exact Eq.symm blocks

end Lock

namespace LockedMap

variable {config : SyncConfig} {self after : LockedMap} {thread : Nat}

/-! ### What an action does to the locks -/

def Gains (before after : LockedMap) (thread : Nat) (lock : Lock) : Prop :=
  ∀ other held, after.Holds other held ↔ before.Holds other held ∨ other = thread ∧ held = lock

def Loses (before after : LockedMap) (thread : Nat) (lock : Lock) : Prop :=
  ∀ other held, after.Holds other held ↔ before.Holds other held ∧ ¬(other = thread ∧ held = lock)

theorem perform_act {action : SyncAction} {response : action.Response}
    (performed : self.perform config thread (.act action) = some (response, after)) :
    ¬(action.acquires = some (.slab true) ∧ self.inSlab ≠ none) ∧
      ∃ map, self.map.perform config thread action = some (response, map) ∧
        after = { self with map := map } := by
  simp only [perform] at performed
  split_ifs at performed with waits
  obtain ⟨⟨answer, map⟩, done, same⟩ := Option.map_eq_some_iff.mp performed
  obtain ⟨rfl, rfl⟩ := Prod.mk.inj same
  exact ⟨waits, map, done, rfl⟩

theorem perform_frame {map later : SyncMap} {action : SyncAction} {response : action.Response}
    (free : action.acquires = none) (keeps : action.releases = none)
    (still : action.isRehash = false)
    (performed : map.perform config thread action = some (response, later)) :
    later.readers = map.readers ∧ later.writer = map.writer ∧ later.locks = map.locks ∧
      later.slabHolder = map.slabHolder := by
  cases action with
  | readLock => cases free
  | writeLock => cases free
  | lockBucket bucketIdx => cases free
  | slabLock => cases free
  | readUnlock => cases keeps
  | writeUnlock => cases keeps
  | poison => cases keeps
  | unlockBucket bucketIdx => cases keeps
  | slabUnlock => cases keeps
  | rehash newActual => cases still
  | matchesKey guarded data key hr =>
      simp only [SyncMap.perform] at performed
      split_ifs at performed
      obtain rfl := (Prod.mk.inj (Option.some.inj performed)).2
      exact ⟨rfl, rfl, rfl, rfl⟩
  | slabKeyIs idx key =>
      simp only [SyncMap.perform] at performed
      split_ifs at performed
      obtain rfl := (Prod.mk.inj (Option.some.inj performed)).2
      exact ⟨rfl, rfl, rfl, rfl⟩
  | slabValue guarded data =>
      simp only [SyncMap.perform] at performed
      split_ifs at performed
      obtain rfl := (Prod.mk.inj (Option.some.inj performed)).2
      exact ⟨rfl, rfl, rfl, rfl⟩
  | slabFree bucketIdx slot idx =>
      simp only [SyncMap.perform] at performed
      split_ifs at performed
      obtain rfl := (Prod.mk.inj (Option.some.inj performed)).2
      exact ⟨rfl, rfl, rfl, rfl⟩
  | slabAlloc bucketIdx slot key value =>
      simp only [SyncMap.perform] at performed
      split_ifs at performed
      split at performed <;> obtain rfl := (Prod.mk.inj (Option.some.inj performed)).2 <;>
        exact ⟨rfl, rfl, rfl, rfl⟩
  | _ =>
      obtain rfl := (Prod.mk.inj (Option.some.inj performed)).2
      exact ⟨rfl, rfl, rfl, rfl⟩

theorem perform_gains {action : LockAction} {response : action.Response} {lock : Lock}
    (acquired : action.acquired response = some lock)
    (performed : self.perform config thread action = some (response, after)) :
    (∀ other held, self.Holds other held → ¬ held.Blocks lock) ∧ self.Gains after thread lock := by
  cases action with
  | enter mutex =>
      obtain rfl := Option.some.inj acquired
      cases mutex with
      | slab =>
          simp only [perform] at performed
          split_ifs at performed with free
          obtain ⟨outside, open'⟩ := free
          obtain rfl := (Prod.mk.inj (Option.some.inj performed)).2
          constructor
          · rintro other (_ | _ | bucketIdx | (_ | _) | _) <;>
              simp [Holds, Lock.Blocks, Mutex.lock, outside, open']
          · rintro other (_ | _ | bucketIdx | (_ | _) | _) <;>
              simp [Holds, Mutex.lock, outside, eq_comm]
      | epochs =>
          simp only [perform] at performed
          split_ifs at performed with free
          obtain rfl := (Prod.mk.inj (Option.some.inj performed)).2
          constructor
          · rintro other (_ | _ | bucketIdx | (_ | _) | _) <;>
              simp [Holds, Lock.Blocks, Mutex.lock, free]
          · rintro other (_ | _ | bucketIdx | (_ | _) | _) <;>
              simp [Holds, Mutex.lock, free, eq_comm]
  | leave mutex => cases acquired
  | fullSlots => cases acquired
  | act action =>
      obtain ⟨waits, map, done, rfl⟩ := perform_act performed
      cases action with
      | readLock =>
          obtain rfl := Option.some.inj acquired
          simp only [SyncMap.perform] at done
          split_ifs at done with free
          obtain rfl := (Prod.mk.inj (Option.some.inj done)).2
          constructor
          · rintro other (_ | _ | bucketIdx | (_ | _) | _) <;> simp [Holds, Lock.Blocks, free]
          · rintro other (_ | _ | bucketIdx | (_ | _) | _) <;> simp [Holds, or_comm]
      | writeLock =>
          obtain rfl := Option.some.inj acquired
          simp only [SyncMap.perform] at done
          split_ifs at done with free
          obtain rfl := (Prod.mk.inj (Option.some.inj done)).2
          constructor
          · rintro other (_ | _ | bucketIdx | (_ | _) | _) <;> simp [Holds, Lock.Blocks, free]
          · rintro other (_ | _ | bucketIdx | (_ | _) | _) <;> simp [Holds, free, eq_comm]
      | lockBucket bucketIdx =>
          simp only [SyncMap.perform] at done
          split_ifs at done with outside free
          · obtain rfl := (Prod.mk.inj (Option.some.inj done)).1
            cases acquired
          · obtain ⟨rfl, rfl⟩ := Prod.mk.inj (Option.some.inj done)
            obtain rfl := Option.some.inj acquired
            constructor
            · rintro other (_ | _ | another | (_ | _) | _) <;> simp [Holds, Lock.Blocks]
              rintro taken rfl
              rw [free] at taken
              cases taken
            · rintro other (_ | _ | another | (_ | _) | _) <;> simp [Holds]
              by_cases same : another = bucketIdx
              · subst same
                simp [free, eq_comm]
              · simp [same]
      | slabLock =>
          obtain rfl := Option.some.inj acquired
          have outside : self.inSlab = none := by
            by_contra inside
            exact waits ⟨rfl, inside⟩
          simp only [SyncMap.perform] at done
          split_ifs at done with free
          obtain rfl := (Prod.mk.inj (Option.some.inj done)).2
          constructor
          · rintro other (_ | _ | bucketIdx | (_ | _) | _) <;>
              simp [Holds, Lock.Blocks, free, outside]
          · rintro other (_ | _ | bucketIdx | (_ | _) | _) <;> simp [Holds, free, eq_comm]
      | _ => cases acquired

theorem perform_loses {action : LockAction} {response : action.Response} {lock : Lock}
    (releases : action.releases = some lock) (holds : self.Holds thread lock)
    (performed : self.perform config thread action = some (response, after)) :
    self.Loses after thread lock := by
  have gone : ∀ (holder : Option Nat) (other : Nat), holder = some thread →
      holder = some other → other = thread := by
    rintro holder other rfl same
    exact (Option.some.inj same).symm
  cases action with
  | enter mutex => cases releases
  | fullSlots => cases releases
  | leave mutex =>
      obtain rfl := Option.some.inj releases
      cases mutex with
      | slab =>
          obtain rfl := (Prod.mk.inj (Option.some.inj performed)).2
          rintro other (_ | _ | bucketIdx | (_ | _) | _) <;> simp [Holds, Mutex.lock]
          exact gone _ other holds
      | epochs =>
          obtain rfl := (Prod.mk.inj (Option.some.inj performed)).2
          rintro other (_ | _ | bucketIdx | (_ | _) | _) <;> simp [Holds, Mutex.lock]
          exact gone _ other holds
  | act action =>
      obtain ⟨waits, map, done, rfl⟩ := perform_act performed
      cases action with
      | readUnlock =>
          obtain rfl := Option.some.inj releases
          obtain rfl := (Prod.mk.inj (Option.some.inj done)).2
          rintro other (_ | _ | bucketIdx | (_ | _) | _) <;> simp [Holds, and_comm]
      | writeUnlock =>
          obtain rfl := Option.some.inj releases
          obtain rfl := (Prod.mk.inj (Option.some.inj done)).2
          rintro other (_ | _ | bucketIdx | (_ | _) | _) <;> simp [Holds]
          exact gone _ other holds
      | poison =>
          obtain rfl := Option.some.inj releases
          obtain rfl := (Prod.mk.inj (Option.some.inj done)).2
          rintro other (_ | _ | bucketIdx | (_ | _) | _) <;> simp [Holds]
          exact gone _ other holds
      | unlockBucket bucketIdx =>
          obtain rfl := Option.some.inj releases
          obtain rfl := (Prod.mk.inj (Option.some.inj done)).2
          rintro other (_ | _ | another | (_ | _) | _) <;> simp [Holds]
          by_cases same : another = bucketIdx
          · subst same
            simpa using gone _ other holds
          · simp [same]
      | slabUnlock =>
          obtain rfl := Option.some.inj releases
          obtain rfl := (Prod.mk.inj (Option.some.inj done)).2
          rintro other (_ | _ | bucketIdx | (_ | _) | _) <;> simp [Holds]
          exact gone _ other holds
      | _ => cases releases

/-- The other actions move no lock; a rebuilt layout comes with fresh bucket locks, which
nobody held before. -/
theorem perform_still {action : LockAction} {response : action.Response}
    (free : action.acquired response = none) (keeps : action.releases = none)
    (unlocked : (∃ newActual, action = .act (.rehash newActual)) →
      ∀ bucketIdx, self.map.locks bucketIdx = none)
    (performed : self.perform config thread action = some (response, after)) (other : Nat)
    (held : Lock) : after.Holds other held ↔ self.Holds other held := by
  cases action with
  | enter mutex => cases free
  | leave mutex => cases keeps
  | fullSlots =>
      obtain rfl := (Prod.mk.inj (Option.some.inj performed)).2
      exact Iff.rfl
  | act action =>
      obtain ⟨waits, map, done, rfl⟩ := perform_act performed
      cases rehashes : action.isRehash with
      | true =>
          cases action with
          | rehash newActual =>
              have none := unlocked ⟨newActual, rfl⟩
              simp only [SyncMap.perform] at done
              split at done <;> obtain rfl := (Prod.mk.inj (Option.some.inj done)).2
              · exact Iff.rfl
              · exact Iff.rfl
              · rcases held with _ | _ | bucketIdx | (_ | _) | _ <;> simp [Holds, none]
          | _ => cases rehashes
      | false =>
          by_cases locks : ∃ bucketIdx, action = .lockBucket bucketIdx
          · obtain ⟨bucketIdx, rfl⟩ := locks
            simp only [SyncMap.perform] at done
            split_ifs at done with outside taken
            · obtain rfl := (Prod.mk.inj (Option.some.inj done)).2
              exact Iff.rfl
            · obtain rfl := (Prod.mk.inj (Option.some.inj done)).1
              cases free
          · have plain : action.acquires = none := by
              cases action <;> first | exact free | exact absurd ⟨_, rfl⟩ locks
            obtain ⟨readers, writer, locks, slab⟩ := perform_frame plain keeps rehashes done
            rcases held with _ | _ | bucketIdx | (_ | _) | _ <;>
              simp [Holds, readers, writer, locks, slab]

end LockedMap

/-! ### The locks along a schedule -/

/-- The lists of held locks are those of the map; they are in order, and no lock is held
against another. -/
structure LocksKept (held : Nat → List Lock) (shared : LockedMap) : Prop where
  holds : ∀ thread lock, lock ∈ held thread ↔ shared.Holds thread lock
  ranked : ∀ thread, (held thread).Pairwise fun upper lower => lower.rank < upper.rank
  reads : ∀ thread bucketIdx, .bucket bucketIdx ∈ held thread → .shared ∈ held thread
  excludes : ∀ thread other lock wanted, shared.Holds thread lock → shared.Holds other wanted →
    lock.Blocks wanted → thread = other ∧ lock = wanted

section Step

variable {config : SyncConfig} {held : Nat → List Lock} {shared after : LockedMap} {thread : Nat}
  {action : LockAction} {response : action.Response}

theorem ranked_head {lock : Lock} {rest : List Lock}
    (ranked : (lock :: rest).Pairwise fun upper lower => lower.rank < upper.rank) :
    lock ∉ rest := by
  intro member
  exact lt_irrefl _ ((List.pairwise_cons.mp ranked).1 lock member)

theorem ranked_unique {locks : List Lock} {first second : Lock}
    (ranked : locks.Pairwise fun upper lower => lower.rank < upper.rank)
    (one : first ∈ locks) (two : second ∈ locks) (same : first.rank = second.rank) :
    first = second := by
  induction locks with
  | nil => cases one
  | cons top rest induction =>
      obtain ⟨below, ranked⟩ := List.pairwise_cons.mp ranked
      rcases List.mem_cons.mp one with rfl | firstBelow
      · rcases List.mem_cons.mp two with rfl | secondBelow
        · rfl
        · exact absurd (below second secondBelow) (by omega)
      · rcases List.mem_cons.mp two with rfl | secondBelow
        · exact absurd (below first firstBelow) (by omega)
        · exact induction ranked firstBelow secondBelow

theorem locks_gain (kept : LocksKept held shared) {lock : Lock}
    (ordered : OrderedStep (held thread) action) (acquires : action.acquires = some lock)
    (free : ∀ other wanted, shared.Holds other wanted → ¬ wanted.Blocks lock)
    (gains : shared.Gains after thread lock) :
    LocksKept (Function.update held thread (lock :: held thread)) after where
  holds := by
    intro other wanted
    rw [gains other wanted]
    by_cases same : other = thread
    · subst same
      simp [kept.holds, or_comm]
    · simp [same, kept.holds]
  ranked := by
    intro other
    by_cases same : other = thread
    · subst same
      simpa using ⟨ordered.above lock acquires, kept.ranked other⟩
    · simpa [same] using kept.ranked other
  reads := by
    intro other bucketIdx member
    by_cases same : other = thread
    · subst same
      rw [Function.update_self] at member ⊢
      apply List.mem_cons_of_mem
      rcases List.mem_cons.mp member with new | old
      · exact ordered.reads bucketIdx (by rw [acquires, new])
      · exact kept.reads other bucketIdx old
    · rw [Function.update_of_ne same] at member ⊢
      exact kept.reads other bucketIdx member
  excludes := by
    intro first second upper lower holdsFirst holdsSecond blocks
    rcases (gains first upper).mp holdsFirst with old | ⟨rfl, rfl⟩
    · rcases (gains second lower).mp holdsSecond with other | ⟨rfl, rfl⟩
      · exact kept.excludes first second upper lower old other blocks
      · exact absurd blocks (free first upper old)
    · rcases (gains second lower).mp holdsSecond with other | ⟨rfl, rfl⟩
      · exact absurd blocks.symm (free second lower other)
      · exact ⟨rfl, rfl⟩

theorem locks_lose (kept : LocksKept held shared) {lock : Lock} {rest : List Lock}
    (last : held thread = lock :: rest) (loses : shared.Loses after thread lock)
    (reads : ∀ bucketIdx, .bucket bucketIdx ∈ rest → .shared ∈ rest) :
    LocksKept (Function.update held thread rest) after where
  holds := by
    intro other wanted
    rw [loses other wanted, ← kept.holds]
    by_cases same : other = thread
    · subst same
      have ranked := kept.ranked other
      rw [last] at ranked
      have apart := ranked_head ranked
      rw [Function.update_self, last]
      constructor
      · intro member
        refine ⟨List.mem_cons_of_mem _ member, ?_⟩
        rintro ⟨_, rfl⟩
        exact apart member
      · rintro ⟨member, different⟩
        rcases List.mem_cons.mp member with new | old
        · exact absurd ⟨rfl, new⟩ different
        · exact old
    · simp [same]
  ranked := by
    intro other
    by_cases same : other = thread
    · subst same
      have ranked := kept.ranked other
      rw [last] at ranked
      simpa using (List.pairwise_cons.mp ranked).2
    · simpa [same] using kept.ranked other
  reads := by
    intro other bucketIdx member
    by_cases same : other = thread
    · subst same
      rw [Function.update_self] at member ⊢
      exact reads bucketIdx member
    · rw [Function.update_of_ne same] at member ⊢
      exact kept.reads other bucketIdx member
  excludes := by
    intro first second upper lower holdsFirst holdsSecond blocks
    exact kept.excludes first second upper lower ((loses first upper).mp holdsFirst).1
      ((loses second lower).mp holdsSecond).1 blocks

theorem locks_still (kept : LocksKept held shared)
    (still : ∀ other lock, after.Holds other lock ↔ shared.Holds other lock) :
    LocksKept held after where
  holds := fun other lock => (kept.holds other lock).trans (still other lock).symm
  ranked := kept.ranked
  reads := kept.reads
  excludes := fun first second upper lower holdsFirst holdsSecond =>
    kept.excludes first second upper lower ((still first upper).mp holdsFirst)
      ((still second lower).mp holdsSecond)

theorem unlocked_of_exclusive (kept : LocksKept held shared)
    (writes : shared.Holds thread .exclusive) (bucketIdx : Nat) :
    shared.map.locks bucketIdx = none := by
  cases taken : shared.map.locks bucketIdx with
  | none => rfl
  | some other =>
      have member := (kept.holds other (.bucket bucketIdx)).mpr taken
      have reads := (kept.holds other .shared).mp (kept.reads other bucketIdx member)
      have clash := kept.excludes thread other .exclusive .shared writes reads trivial
      cases clash.2

theorem locks_act (kept : LocksKept held shared) (ordered : OrderedStep (held thread) action)
    (performed : shared.perform config thread action = some (response, after)) :
    LocksKept (Function.update held thread
      ((lockDiscipline config).next (held thread) action response)) after := by
  cases releases : action.releases with
  | some lock =>
      obtain ⟨rest, last⟩ := ordered.last lock releases
      have popped : (lockDiscipline config).next (held thread) action response = rest := by
        simp [lockDiscipline, releases, last]
      rw [popped]
      have holds : shared.Holds thread lock := by
        rw [← kept.holds, last]
        exact List.mem_cons_self
      apply locks_lose kept last (LockedMap.perform_loses releases holds performed)
      intro bucketIdx member
      -- The read lock ranks below the bucket lock, so it is not the one released.
      have reads := kept.reads thread bucketIdx (by rw [last]; exact List.mem_cons_of_mem _ member)
      rw [last] at reads
      rcases List.mem_cons.mp reads with rfl | old
      · have ranked := kept.ranked thread
        rw [last] at ranked
        have below := (List.pairwise_cons.mp ranked).1 _ member
        exact absurd below (by simp [Lock.rank])
      · exact old
  | none =>
      cases acquired : action.acquired response with
      | some lock =>
          have pushed : (lockDiscipline config).next (held thread) action response =
              lock :: held thread := by
            simp [lockDiscipline, releases, acquired]
          have acquires : action.acquires = some lock := by
            cases action with
            | act action =>
                cases action with
                | lockBucket bucketIdx =>
                    cases response with
                    | true => exact acquired
                    | false => cases acquired
                | _ => exact acquired
            | _ => exact acquired
          rw [pushed]
          obtain ⟨free, gains⟩ := LockedMap.perform_gains acquired performed
          exact locks_gain kept ordered acquires free gains
      | none =>
          have same : (lockDiscipline config).next (held thread) action response = held thread := by
            simp [lockDiscipline, releases, acquired]
          rw [same, Function.update_eq_self]
          apply locks_still kept
          apply LockedMap.perform_still acquired releases _ performed
          rintro ⟨newActual, rfl⟩
          have writes := (kept.holds thread .exclusive).mp (ordered.under .exclusive rfl)
          exact unlocked_of_exclusive kept writes

/-- An action that has to wait waits for a lock that another thread holds. -/
theorem blocked_waits (kept : LocksKept held shared) (ordered : OrderedStep (held thread) action)
    (waits : shared.perform config thread action = none) :
    ∃ lock other wanted, action.acquires = some lock ∧ other ≠ thread ∧
      shared.Holds other wanted ∧ wanted.Blocks lock := by
  have blocked : ∀ lock other wanted, action.acquires = some lock → shared.Holds other wanted →
      wanted.Blocks lock → ∃ lock other wanted, action.acquires = some lock ∧ other ≠ thread ∧
        shared.Holds other wanted ∧ wanted.Blocks lock := by
    intro lock other wanted acquires holds blocks
    refine ⟨lock, other, wanted, acquires, ?_, holds, blocks⟩
    rintro rfl
    have below := ordered.above lock acquires wanted ((kept.holds other wanted).mpr holds)
    rw [blocks.same_rank] at below
    exact lt_irrefl _ below
  -- A section under the slab mutex finds it free of all others.
  have openSlab : ∀ guarded, .slab guarded ∈ held thread →
      shared.map.slabOpen thread guarded = true := by
    intro guarded member
    have mine := (kept.holds thread (.slab guarded)).mp member
    cases guarded with
    | true =>
        simp only [SyncMap.slabOpen, if_true, decide_eq_true_eq]
        exact mine
    | false =>
        cases holder : shared.map.slabHolder with
        | none => simp [SyncMap.slabOpen, holder]
        | some other =>
            have theirs : shared.Holds other (.slab true) := holder
            have clash := kept.excludes other thread (.slab true) (.slab false) theirs mine trivial
            cases clash.2
  cases action with
  | enter mutex =>
      cases mutex with
      | slab =>
          cases inside : shared.inSlab with
          | some other => exact blocked (.slab false) other (.slab false) rfl inside trivial
          | none =>
              cases holder : shared.map.slabHolder with
              | some other => exact blocked (.slab false) other (.slab true) rfl holder trivial
              | none => simp [LockedMap.perform, inside, holder] at waits
      | epochs =>
          cases inside : shared.inEpochs with
          | some other => exact blocked .epochs other .epochs rfl inside trivial
          | none => simp [LockedMap.perform, inside] at waits
  | leave mutex => cases mutex <;> cases waits
  | fullSlots => cases waits
  | act action =>
      simp only [LockedMap.perform] at waits
      split_ifs at waits with taken
      · obtain ⟨acquires, inside⟩ := taken
        obtain ⟨other, inside⟩ := Option.ne_none_iff_exists'.mp inside
        exact blocked (.slab true) other (.slab false) acquires inside trivial
      · rw [Option.map_eq_none_iff] at waits
        cases action with
        | readLock =>
            cases writer : shared.map.writer with
            | some other => exact blocked .shared other .exclusive rfl writer trivial
            | none => simp [SyncMap.perform, writer] at waits
        | writeLock =>
            cases writer : shared.map.writer with
            | some other => exact blocked .exclusive other .exclusive rfl writer trivial
            | none =>
                have reading : shared.map.readers ≠ ∅ := by
                  intro empty
                  simp [SyncMap.perform, writer, empty] at waits
                obtain ⟨other, member⟩ := Finset.nonempty_iff_ne_empty.mpr reading
                exact blocked .exclusive other .shared rfl member trivial
        | lockBucket bucketIdx =>
            simp only [SyncMap.perform] at waits
            split_ifs at waits with outside free
            obtain ⟨other, holder⟩ := Option.ne_none_iff_exists'.mp free
            exact blocked (.bucket bucketIdx) other (.bucket bucketIdx) rfl holder rfl
        | slabLock =>
            cases holder : shared.map.slabHolder with
            | some other => exact blocked (.slab true) other (.slab true) rfl holder trivial
            | none => simp [SyncMap.perform, holder] at waits
        | rehash newActual =>
            simp only [SyncMap.perform] at waits
            split at waits <;> cases waits
        | matchesKey guarded data key hr =>
            have member : .slab guarded ∈ held thread := by
              cases guarded <;> exact ordered.under _ rfl
            simp [SyncMap.perform, openSlab guarded member] at waits
        | slabValue guarded data =>
            have member : .slab guarded ∈ held thread := by
              cases guarded <;> exact ordered.under _ rfl
            simp [SyncMap.perform, openSlab guarded member] at waits
        | slabKeyIs idx key =>
            simp [SyncMap.perform, openSlab false (ordered.under _ rfl)] at waits
        | slabFree bucketIdx slot idx =>
            simp [SyncMap.perform, openSlab false (ordered.under _ rfl)] at waits
        | slabAlloc bucketIdx slot key value =>
            simp only [SyncMap.perform, openSlab false (ordered.under _ rfl), if_true] at waits
            split at waits <;> cases waits
        | _ => cases waits

end Step

/-! ### Whole schedules -/

namespace LockCall

variable (config : SyncConfig)

theorem body_conducts (request : LockCall) :
    ∃ start : Standing, start.held = [] ∧
      SyncProgram.Conducts (request.body config) (fun _ => Standing.Final) start := by
  cases request with
  | call request =>
      refine ⟨.start request, rfl, ?_⟩
      exact SyncProgram.conducts_mono (request.program_conducts config) fun _ _ ends => ends.1
  | numBuckets =>
      refine ⟨.outside, rfl, SyncProgram.conducts_bind ?_⟩
      apply SyncProgram.conducts_read_inner rfl
      exact SyncProgram.conducts_atomic (Or.inl rfl) fun _ =>
        SyncProgram.conducts_atomic rfl fun _ => ⟨rfl, rfl, rfl⟩
  | loadFactor =>
      refine ⟨.outside, rfl, SyncProgram.conducts_bind ?_⟩
      apply SyncProgram.conducts_read_inner rfl
      exact SyncProgram.conducts_atomic (Or.inl rfl) fun _ => SyncProgram.conducts_atomic rfl
        fun _ => SyncProgram.conducts_atomic (Or.inl ⟨rfl, rfl⟩) fun _ => ⟨rfl, rfl, rfl⟩

theorem program_orders (request : LockCall) :
    LockProgram.Orders (request.program config) (fun _ held => held = []) [] := by
  obtain ⟨start, outside, conducts⟩ := request.body_conducts config
  rw [← outside]
  apply LockProgram.orders_mono (expand_orders conducts (by simp [outside, Between]) false)
  rintro _ held ⟨final, ends, rfl⟩
  rw [ends.1]
  exact outside.symm

end LockCall

def lockAccount (config : SyncConfig) : Account (lockDiscipline config) (LockCall.program config) where
  start := fun _ => []
  Final := fun held => held = []
  Allowed := fun _ _ => True
  Known := fun _ => True
  Invariant := LocksKept
  follows := fun _ request _ => request.program_orders config
  begins := by
    intro held shared thread request _ _ kept outside
    have same : Function.update held thread [] = held := by
      rw [← show held thread = [] from outside, Function.update_eq_self]
    rw [same]
    exact kept
  acts := fun _ _ _ _ _ _ _ kept ordered performed => locks_act kept ordered performed

theorem lock_run_kept (config : SyncConfig) (numBuckets : Nat) (moves : List (Move LockCall)) :
    ∃ held, (lockAccount config).Kept held (lockRun config numBuckets moves) := by
  have start : (lockAccount config).Kept (fun _ => [])
      { shared := ⟨SyncMap.new numBuckets, none, none⟩, programs := fun _ => .done () } := by
    refine ⟨fun _ => rfl, ?_, fun _ => List.Pairwise.nil, ?_, ?_⟩
    · rintro thread (_ | _ | bucketIdx | (_ | _) | _) <;> simp [LockedMap.Holds, SyncMap.new]
    · intro thread bucketIdx member
      cases member
    · rintro thread other (_ | _ | bucketIdx | (_ | _) | _) wanted holds <;>
        simp [LockedMap.Holds, SyncMap.new] at holds
  exact Account.kept_run start moves (fun _ _ _ => trivial) fun _ _ _ => trivial

section Waiting

variable {config : SyncConfig}

def Requests (system : System (lockMachine config)) (thread : Nat) (lock : Lock) : Prop :=
  ∃ (action : LockAction) (next : action.Response → LockProgram config Unit),
    system.programs thread = .act action next ∧ action.acquires = some lock

/-- The thread waits for the other one: to release a lock, or as a reader behind a writer
that waits as well. -/
def WaitsFor (system : System (lockMachine config)) (thread other : Nat) : Prop :=
  ∃ lock, Requests system thread lock ∧
    ((∃ held, LockedMap.Holds system.shared other held ∧ held.Blocks lock) ∨
      lock = .shared ∧ Requests system other .exclusive)

/-- The order in which a chain of waiting threads climbs. -/
def Lock.level : Lock → Nat
  | .shared => 0
  | lock => lock.rank + 1

theorem Lock.level_lt {lower upper : Lock} (less : lower.rank < upper.rank) :
    lower.level < upper.level := by
  cases lower <;> cases upper <;> simp_all [Lock.level, Lock.rank]

theorem requests_unique {system : System (lockMachine config)} {thread : Nat} {first second : Lock}
    (one : Requests system thread first) (two : Requests system thread second) : first = second := by
  obtain ⟨action, next, program, acquires⟩ := one
  obtain ⟨other, rest, sameProgram, also⟩ := two
  rw [program] at sameProgram
  cases sameProgram
  rw [acquires] at also
  exact Option.some.inj also

/-- A chain of waiting threads climbs to higher and higher requests. -/
theorem chain_climbs {system : System (lockMachine config)}
    (ordered : ∀ thread lock held, Requests system thread lock →
      LockedMap.Holds system.shared thread held → held.rank < lock.rank)
    {first last : Nat} (chain : Relation.TransGen (WaitsFor system) first last) {wanted : Lock}
    (requests : Requests system last wanted) :
    ∃ lock, Requests system first lock ∧ lock.level < wanted.level := by
  have edge : ∀ {waiting other : Nat} {wanted : Lock}, WaitsFor system waiting other →
      Requests system other wanted → ∃ lock, Requests system waiting lock ∧
        lock.level < wanted.level := by
    rintro waiting other wanted ⟨lock, requests, ⟨held, holds, blocks⟩ | ⟨rfl, queued⟩⟩ asks
    · refine ⟨lock, requests, Lock.level_lt ?_⟩
      rw [← blocks.same_rank]
      exact ordered other wanted held asks holds
    · refine ⟨.shared, requests, ?_⟩
      rw [requests_unique asks queued]
      decide
  induction chain generalizing wanted with
  | single waits => exact edge waits requests
  | tail _ waits induction =>
      obtain ⟨middle, asks, below⟩ := edge waits requests
      obtain ⟨lock, starts, less⟩ := induction asks
      exact ⟨lock, starts, less.trans below⟩

theorem no_deadlock (config : SyncConfig) (numBuckets : Nat) (moves : List (Move LockCall)) :
    let system := lockRun config numBuckets moves
    (∀ thread lock held, Requests system thread lock →
      LockedMap.Holds system.shared thread held → held.rank < lock.rank) ∧
    (∀ thread bucketIdx other, LockedMap.Holds system.shared thread (.bucket bucketIdx) →
      LockedMap.Holds system.shared thread (.bucket other) → bucketIdx = other) ∧
    (∀ thread lock held, Requests system thread lock → lock = .shared ∨ lock = .exclusive →
      ¬ LockedMap.Holds system.shared thread held) ∧
    (∀ thread (action : LockAction) (next : action.Response → LockProgram config Unit),
      system.programs thread = .act action next →
      LockedMap.perform config thread action system.shared = none →
      ∃ other, other ≠ thread ∧ WaitsFor system thread other) ∧
    (∀ thread, ¬ Relation.TransGen (WaitsFor system) thread thread) ∧
    ∀ thread, (system.programs thread).finished →
      ∀ lock, ¬ LockedMap.Holds system.shared thread lock := by
  intro system
  obtain ⟨held, kept⟩ := lock_run_kept config numBuckets moves
  have locks : LocksKept held system.shared := kept.invariant
  have order : ∀ thread (action : LockAction) (next : action.Response → LockProgram config Unit),
      system.programs thread = .act action next → OrderedStep (held thread) action := by
    intro thread action next program
    have follows := kept.follows thread
    rw [show (lockRun config numBuckets moves).programs thread = .act action next from program]
      at follows
    exact follows.1
  have above : ∀ thread lock other, Requests system thread lock →
      LockedMap.Holds system.shared thread other → other.rank < lock.rank := by
    rintro thread lock other ⟨action, next, program, acquires⟩ holds
    exact (order thread action next program).above lock acquires other
      ((locks.holds thread other).mpr holds)
  refine ⟨above, ?_, ?_, ?_, ?_, ?_⟩
  · intro thread bucketIdx other first second
    exact Lock.bucket.inj (ranked_unique (locks.ranked thread)
      ((locks.holds thread _).mpr first) ((locks.holds thread _).mpr second) rfl)
  · rintro thread lock other requests outermost holds
    have below := above thread lock other requests holds
    rcases outermost with rfl | rfl <;> exact absurd below (Nat.not_lt_zero _)
  · intro thread action next program waits
    obtain ⟨lock, other, wanted, acquires, different, holds, blocks⟩ :=
      blocked_waits locks (order thread action next program) waits
    exact ⟨other, different, lock, ⟨action, next, program, acquires⟩,
      Or.inl ⟨wanted, holds, blocks⟩⟩
  · intro thread cycle
    obtain ⟨other, first⟩ : ∃ other, WaitsFor system thread other := by
      cases Relation.TransGen.head'_iff.mp cycle with
      | intro other chain => exact ⟨other, chain.1⟩
    obtain ⟨wanted, requests, _⟩ := first
    obtain ⟨lock, same, less⟩ := chain_climbs above cycle requests
    rw [requests_unique same requests] at less
    exact lt_irrefl _ less
  · intro thread finished lock holds
    have follows := kept.follows thread
    cases program : system.programs thread with
    | done result =>
        rw [show (lockRun config numBuckets moves).programs thread = .done result from program]
          at follows
        have outside : held thread = [] := follows
        have member := (locks.holds thread lock).mpr holds
        rw [outside] at member
        cases member
    | panic => simp [program, Program.finished] at finished
    | act action next => simp [program, Program.finished] at finished

end Waiting

end PulseMap
