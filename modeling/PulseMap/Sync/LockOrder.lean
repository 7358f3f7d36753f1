import PulseMap.Sync.Locking

/-!
The locks are taken in the order of their ranks: whatever a thread waits for ranks above
everything it holds, so no threads wait for each other in a cycle, and a call that returns
has released everything.
-/

namespace PulseMap

namespace LockAction

def acquires : LockAction → Option Lock
  | enter mutex => some mutex.lock
  | act action => action.acquires
  | _ => none

def releases : LockAction → Option Lock
  | leave mutex => some mutex.lock
  | act action => action.releases
  | _ => none

/-- The lock that the action has taken; a bucket out of range has none. -/
def acquired : (action : LockAction) → action.Response → Option Lock
  | act (.lockBucket bucketIdx), locked => if locked then some (.bucket bucketIdx) else none
  | action, _ => action.acquires

def needs : LockAction → Option Lock
  | act (.matchesKey true _ _ _) => some (.slab true)
  | act (.slabValue true _) => some (.slab true)
  | act (.rehash _) => some .exclusive
  | act action => action.mutex.map Mutex.lock
  | _ => none

end LockAction

/-- The rules of the lock order: a lock is requested above everything held, and the lock
taken last is released first. -/
structure OrderedStep (held : List Lock) (action : LockAction) : Prop where
  above : ∀ lock, action.acquires = some lock → ∀ other ∈ held, other.rank < lock.rank
  reads : ∀ bucketIdx, action.acquires = some (.bucket bucketIdx) → .shared ∈ held
  last : ∀ lock, action.releases = some lock → ∃ rest, held = lock :: rest
  under : ∀ lock, action.needs = some lock → lock ∈ held

def Between (held : List Lock) : Prop := .slab false ∉ held ∧ .epochs ∉ held

def lockDiscipline (config : SyncConfig) : Discipline (lockMachine config) where
  Local := List Lock
  Allows := OrderedStep
  next := fun held action response =>
    match LockAction.releases action with
    | some _ => List.tail held
    | none => (LockAction.acquired action response).toList ++ held
  Panics := Between

namespace LockProgram

variable {config : SyncConfig} {Result Next : Type} {held : List Lock}

def Orders (program : LockProgram config Result) (post : Result → List Lock → Prop)
    (held : List Lock) : Prop :=
  (lockDiscipline config).Follows program post held

theorem orders_bind {program : LockProgram config Result} {next : Result → LockProgram config Next}
    {post : Next → List Lock → Prop}
    (orders : Orders program (fun result => Orders (next result) post) held) :
    Orders (program >>= next) post held :=
  Discipline.follows_bind orders

theorem orders_mono {program : LockProgram config Result} {strong weak : Result → List Lock → Prop}
    (orders : Orders program strong held)
    (implies : ∀ result final, strong result final → weak result final) :
    Orders program weak held :=
  Discipline.follows_mono orders implies

theorem orders_act {action : LockAction} {next : action.Response → LockProgram config Next}
    {post : Next → List Lock → Prop} (ordered : OrderedStep held action)
    (rest : ∀ response, Orders (next response) post
      ((lockDiscipline config).next held action response)) :
    Orders (atomic action >>= next) post held := ⟨ordered, rest⟩

theorem orders_enter {mutex : Mutex} {post : Unit → List Lock → Prop}
    (above : ∀ other ∈ held, other.rank < mutex.lock.rank) (rest : post () (mutex.lock :: held)) :
    Orders (atomic (.enter mutex) : LockProgram config _) post held := by
  refine ⟨⟨?_, ?_, ?_, ?_⟩, fun _ => rest⟩
  · rintro lock same
    rw [← Option.some.inj same]
    exact above
  · intro bucketIdx same
    cases mutex <;> cases same
  · intro lock same
    cases same
  · intro lock same
    cases same

theorem orders_leave {mutex : Mutex} {post : Unit → List Lock → Prop} (rest : post () held) :
    Orders (atomic (.leave mutex) : LockProgram config _) post (mutex.lock :: held) := by
  refine ⟨⟨?_, ?_, ?_, ?_⟩, fun _ => rest⟩
  · intro lock same
    cases same
  · intro bucketIdx same
    cases same
  · intro lock same
    exact ⟨held, by rw [Option.some.inj same]⟩
  · intro lock same
    cases same

theorem orders_visit {mutex : Mutex} (above : ∀ other ∈ held, other.rank < mutex.lock.rank) :
    Orders (visit mutex : LockProgram config _) (fun _ final => final = held) held := by
  apply orders_bind
  apply orders_enter above
  exact orders_leave rfl

theorem orders_visits {mutex : Mutex} (above : ∀ other ∈ held, other.rank < mutex.lock.rank)
    (count : Nat) :
    Orders (visits mutex count : LockProgram config _) (fun _ final => final = held) held := by
  induction count with
  | zero => rfl
  | succ count induction =>
      apply orders_bind
      apply orders_mono (orders_visit above)
      rintro _ final rfl
      exact induction

end LockProgram

/-! ### The calls keep to the order -/

section Expand

variable {config : SyncConfig} {place : Standing} {action : SyncAction}

theorem section_above (allows : place.Allows config action) {mutex : Mutex}
    (takes : action.mutex = some mutex) : ∀ other ∈ place.held, other.rank < mutex.lock.rank := by
  have inBucket : ∀ bucketIdx, place.held = [.bucket bucketIdx, .shared] →
      ∀ other ∈ place.held, other.rank < mutex.lock.rank := by
    intro bucketIdx held other member
    rw [held] at member
    cases mutex <;> fin_cases member <;> simp [Lock.rank, Mutex.lock]
  cases action with
  | matchesKey guarded data key hr =>
      cases guarded with
      | true => cases takes
      | false =>
          obtain ⟨bucketIdx, held⟩ := allows
          exact inBucket bucketIdx held
  | slabValue guarded data =>
      cases guarded with
      | true => cases takes
      | false =>
          obtain ⟨bucketIdx, held⟩ := allows
          exact inBucket bucketIdx held
  | slabKeyIs idx key =>
      obtain ⟨bucketIdx, held⟩ := allows
      exact inBucket bucketIdx held
  | slabFree bucketIdx slot idx => exact inBucket bucketIdx allows
  | slabAlloc bucketIdx slot key value => exact inBucket bucketIdx allows
  | storeStamp bucketIdx slot stamp => exact inBucket bucketIdx allows.1
  | loadStamp bucketIdx slot =>
      rcases allows.1 with held | held
      · exact inBucket bucketIdx held
      · intro other member
        rw [held] at member
        cases takes
        fin_cases member <;> simp [Lock.rank, Mutex.lock]
  | _ => cases takes

theorem ordered_under {held : List Lock} {action : LockAction} (free : action.acquires = none)
    (keeps : action.releases = none) (under : ∀ lock, action.needs = some lock → lock ∈ held) :
    OrderedStep held action where
  above := by simp [free]
  reads := by simp [free]
  last := by simp [keeps]
  under := under

theorem ordered_release {held : List Lock} {action : LockAction} {lock : Lock}
    (free : action.acquires = none) (needs : action.needs = none)
    (releases : action.releases = some lock) (last : ∃ rest, held = lock :: rest) :
    OrderedStep held action where
  above := by simp [free]
  reads := by simp [free]
  last := by
    intro other same
    rw [releases] at same
    rw [← Option.some.inj same]
    exact last
  under := by simp [needs]

theorem ordered_acquire {held : List Lock} {action : LockAction} {lock : Lock}
    (acquires : action.acquires = some lock) (needs : action.needs = none)
    (keeps : action.releases = none) (above : ∀ other ∈ held, other.rank < lock.rank)
    (reads : ∀ bucketIdx, lock = .bucket bucketIdx → .shared ∈ held) : OrderedStep held action where
  above := by
    intro other same
    rw [acquires] at same
    rw [← Option.some.inj same]
    exact above
  reads := by
    intro bucketIdx same
    rw [acquires] at same
    exact reads bucketIdx (Option.some.inj same)
  last := by simp [keeps]
  under := by simp [needs]

theorem act_ordered (allows : place.Allows config action) :
    OrderedStep ((action.mutex.map Mutex.lock).toList ++ place.held) (.act action) := by
  have sections : ∀ mutex, action.mutex = some mutex → (LockAction.act action).acquires = none →
      (LockAction.act action).releases = none →
      (LockAction.act action).needs = action.mutex.map Mutex.lock →
      OrderedStep ((action.mutex.map Mutex.lock).toList ++ place.held) (.act action) := by
    intro mutex takes free keeps needs
    apply ordered_under free keeps
    intro lock same
    rw [needs, takes] at same
    rw [takes, ← Option.some.inj same]
    exact List.mem_cons_self
  cases action with
  | readLock =>
      apply ordered_acquire rfl rfl rfl
      · rw [show place.held = [] from allows]
        simp [SyncAction.mutex]
      · exact fun _ same => by cases same
  | writeLock =>
      apply ordered_acquire rfl rfl rfl
      · rw [show place.held = [] from allows]
        simp [SyncAction.mutex]
      · exact fun _ same => by cases same
  | lockBucket bucketIdx =>
      apply ordered_acquire rfl rfl rfl
      · rw [show place.held = [.shared] from allows.1]
        simp [SyncAction.mutex, Lock.rank]
      · rw [show place.held = [.shared] from allows.1]
        simp
  | slabLock =>
      obtain ⟨bucketIdx, held⟩ := allows
      rw [show place.held = [.bucket bucketIdx, .shared] from held]
      apply ordered_acquire rfl rfl rfl
      · simp [SyncAction.mutex, Lock.rank]
      · exact fun _ same => by cases same
  | readUnlock => exact ordered_release rfl rfl rfl ⟨[], allows⟩
  | writeUnlock => exact ordered_release rfl rfl rfl ⟨[], allows.1⟩
  | poison => exact ordered_release rfl rfl rfl ⟨[], allows.1⟩
  | unlockBucket bucketIdx => exact ordered_release rfl rfl rfl ⟨_, allows.1⟩
  | slabUnlock =>
      obtain ⟨bucketIdx, held⟩ := allows
      exact ordered_release rfl rfl rfl ⟨_, held⟩
  | matchesKey guarded data key hr =>
      cases guarded with
      | true =>
          obtain ⟨bucketIdx, held⟩ := allows
          apply ordered_under rfl rfl
          intro lock same
          cases same
          rw [held]
          simp
      | false => exact sections .slab rfl rfl rfl rfl
  | slabValue guarded data =>
      cases guarded with
      | true =>
          obtain ⟨bucketIdx, held⟩ := allows
          apply ordered_under rfl rfl
          intro lock same
          cases same
          rw [held]
          simp
      | false => exact sections .slab rfl rfl rfl rfl
  | rehash newActual =>
      apply ordered_under rfl rfl
      intro lock same
      cases same
      rw [show place.held = [.exclusive] from allows.1]
      simp
  | slabKeyIs idx key => exact sections .slab rfl rfl rfl rfl
  | slabFree bucketIdx slot idx => exact sections .slab rfl rfl rfl rfl
  | slabAlloc bucketIdx slot key value => exact sections .slab rfl rfl rfl rfl
  | loadStamp bucketIdx slot => exact sections .epochs rfl rfl rfl rfl
  | storeStamp bucketIdx slot stamp => exact sections .epochs rfl rfl rfl rfl
  | _ => exact ordered_under rfl rfl fun lock same => by cases same

theorem next_held (place : Standing) (response : action.Response) :
    (place.next action response).held =
      match action.releases with
      | some _ => place.held.tail
      | none => (LockAction.acquired (.act action) response).toList ++ place.held := by
  cases action <;> try rfl
  · rename_i bucketIdx
    cases response <;> rfl
  · rename_i newActual
    rcases response with _ | _ | count <;> rfl

theorem between_next (between : Between place.held) (response : action.Response) :
    Between (place.next action response).held := by
  have outside : ∀ lock ∈ (LockAction.acquired (.act action) response).toList,
      lock ≠ .slab false ∧ lock ≠ .epochs := by
    cases action with
    | lockBucket bucketIdx => cases response <;> simp [LockAction.acquired]
    | _ => simp [LockAction.acquired, LockAction.acquires, SyncAction.acquires]
  rw [next_held]
  split
  · exact ⟨fun member => between.1 (List.mem_of_mem_tail member),
      fun member => between.2 (List.mem_of_mem_tail member)⟩
  · constructor <;> intro member <;> rcases List.mem_append.mp member with new | old
    · exact (outside _ new).1 rfl
    · exact between.1 old
    · exact (outside _ new).2 rfl
    · exact between.2 old

theorem before_orders (allows : place.Allows config action) (collected : Bool) :
    LockProgram.Orders (LockProgram.before collected action : LockProgram config Unit)
      (fun _ final => final = (action.mutex.map Mutex.lock).toList ++ place.held) place.held := by
  unfold LockProgram.before
  cases takes : action.mutex with
  | some mutex => exact LockProgram.orders_enter (section_above allows takes) rfl
  | none =>
      dsimp only
      split_ifs with collects
      · have writing : place.held = [.exclusive] := by
          cases action with
          | rehash newActual => exact allows.1
          | _ => exact absurd collects.1 (by simp [SyncAction.isRehash])
        have above : ∀ mutex : Mutex, ∀ other ∈ place.held, other.rank < mutex.lock.rank := by
          intro mutex
          rw [writing]
          cases mutex <;> simp [Lock.rank, Mutex.lock]
        apply LockProgram.orders_bind
        apply LockProgram.orders_mono (LockProgram.orders_visit (above .epochs))
        rintro _ final rfl
        apply LockProgram.orders_act
        · exact ordered_under rfl rfl fun lock same => by cases same
        · exact fun count => LockProgram.orders_visits (above .slab) count
      · rfl

theorem section_plain {mutex : Mutex} (takes : action.mutex = some mutex) :
    action.releases = none ∧
      ∀ response, LockAction.acquired (.act action) response = none := by
  cases action <;> first | exact ⟨rfl, fun _ => rfl⟩ | cases takes

theorem after_orders (allows : place.Allows config action) (response : action.Response) :
    LockProgram.Orders (LockProgram.after action response : LockProgram config Unit)
      (fun _ final => final = (place.next action response).held)
      ((lockDiscipline config).next ((action.mutex.map Mutex.lock).toList ++ place.held)
        (.act action) response) := by
  have moves := next_held place response
  unfold LockProgram.after
  cases takes : action.mutex with
  | some mutex =>
      obtain ⟨keeps, free⟩ := section_plain takes
      have inside : (lockDiscipline config).next (mutex.lock :: place.held) (.act action) response =
          mutex.lock :: place.held := by
        simp only [lockDiscipline, LockAction.releases, keeps, free response]
        rfl
      rw [keeps, free response] at moves
      simp only [Option.map_some, Option.toList_some, List.singleton_append, inside]
      exact LockProgram.orders_leave moves.symm
  | none =>
      simp only [Option.map_none, Option.toList_none, List.nil_append]
      have outside : (lockDiscipline config).next place.held (.act action) response =
          (place.next action response).held := moves.symm
      rw [outside]
      split
      · have writing : place.held = [.exclusive] := allows.1
        apply LockProgram.orders_visit
        rw [moves]
        simp [SyncAction.releases, LockAction.acquired, LockAction.acquires, SyncAction.acquires,
          writing, Lock.rank, Mutex.lock]
      · rfl

/-- A program that keeps to the rules of its standings takes its locks in order. -/
theorem expand_orders {Result : Type} {program : SyncProgram config Result}
    {post : Result → Standing → Prop} (conducts : SyncProgram.Conducts program post place)
    (between : Between place.held) (collected : Bool) :
    LockProgram.Orders (program.expand collected)
      (fun result held => ∃ final, post result final ∧ held = final.held) place.held := by
  induction program generalizing place collected with
  | done result => exact ⟨place, conducts, rfl⟩
  | panic => exact between
  | act action next induction =>
      obtain ⟨allows, rest⟩ := conducts
      apply LockProgram.orders_bind
      apply LockProgram.orders_mono (before_orders allows collected)
      rintro _ inside rfl
      refine LockProgram.orders_act (act_ordered allows) fun response => LockProgram.orders_bind ?_
      apply LockProgram.orders_mono (after_orders allows response)
      rintro _ outside rfl
      exact induction response (rest response) (between_next between response) _

end Expand

end PulseMap
