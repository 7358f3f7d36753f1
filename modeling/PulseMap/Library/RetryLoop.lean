import Mathlib.Data.List.Nodup
import Mathlib.Logic.Function.Basic

/-!
Calls that update one shared value by a retry loop: load it, compute the update of what was
loaded, and exchange the two if the value is still the loaded one. An exchange may also fail
for no reason. Whatever the interleaving, the value is the updates of the successful
exchanges in their order, and each finished call has made exactly one.
-/

namespace PulseMap.RetryLoop

inductive Phase (Value : Type) where
  | load
  | exchange (seen : Value)
  | done

structure Call (Value Op : Type) where
  op : Op
  phase : Phase Value

/-- `begun` and `committed` are history: the calls in the order of their beginnings and of
their successful exchanges. -/
structure State (Value Op : Type) where
  value : Value
  calls : Nat → Option (Call Value Op)
  begun : List (Nat × Op)
  committed : List (Nat × Op)

/-- A schedule entry: a call begins, or one of its atomic actions is performed. -/
inductive Move (Op : Type) where
  | call (id : Nat) (op : Op)
  | step (id : Nat) (spurious : Bool)

variable {Value Op : Type} [DecidableEq Value] (update : Op → Value → Value)

namespace State

def new (value : Value) : State Value Op := ⟨value, fun _ => none, [], []⟩

def setPhase (self : State Value Op) (id : Nat) (op : Op) (phase : Phase Value) : State Value Op :=
  { self with calls := Function.update self.calls id (some ⟨op, phase⟩) }

def step (self : State Value Op) (id : Nat) (spurious : Bool) : State Value Op :=
  match self.calls id with
  | some ⟨op, .load⟩ => self.setPhase id op (.exchange self.value)
  | some ⟨op, .exchange seen⟩ =>
      if self.value = seen ∧ spurious = false then
        { self.setPhase id op .done with
          value := update op seen
          committed := self.committed ++ [(id, op)] }
      else self.setPhase id op .load
  | _ => self

def move (self : State Value Op) : Move Op → State Value Op
  | .call id op =>
      match self.calls id with
      | none => { self.setPhase id op .load with begun := self.begun ++ [(id, op)] }
      | some _ => self
  | .step id spurious => self.step update id spurious

def run (self : State Value Op) (moves : List (Move Op)) : State Value Op :=
  moves.foldl (move update) self

/-- The steps of a call that nothing disturbs: one lost exchange, a load and an exchange. -/
def alone (id : Nat) : List (Move Op) := List.replicate 3 (.step id false)

def applyAll (value : Value) (calls : List (Nat × Op)) : Value :=
  calls.foldl (fun value call => update call.2 value) value

/-- What has happened is what the calls say: each has committed exactly when it is done. -/
structure Serial (initial : Value) (state : State Value Op) : Prop where
  value : state.value = applyAll update initial state.committed
  begun : ∀ id op, (id, op) ∈ state.begun ↔ ∃ phase, state.calls id = some ⟨op, phase⟩
  committed : ∀ id op, (id, op) ∈ state.committed ↔ state.calls id = some ⟨op, .done⟩
  begunOnce : (state.begun.map Prod.fst).Nodup
  committedOnce : (state.committed.map Prod.fst).Nodup

def Quiet (self : State Value Op) : Prop :=
  ∀ id call, self.calls id = some call → call.phase = .done

section Serial

variable {update} {initial : Value} {self : State Value Op} {id : Nat} {op : Op}

omit [DecidableEq Value] in
theorem apply_all_append (value : Value) (calls : List (Nat × Op)) (call : Nat × Op) :
    applyAll update value (calls ++ [call]) = update call.2 (applyAll update value calls) :=
  List.foldl_append ..

omit [DecidableEq Value] in
theorem serial_new (initial : Value) :
    (new initial : State Value Op).Serial update initial where
  value := rfl
  begun := by simp [new]
  committed := by simp [new]
  begunOnce := List.nodup_nil
  committedOnce := List.nodup_nil

omit [DecidableEq Value] in
theorem serial_phase (serial : self.Serial update initial) {phase next : Phase Value}
    (here : self.calls id = some ⟨op, phase⟩) (unfinished : phase ≠ .done) (unended : next ≠ .done) :
    (self.setPhase id op next).Serial update initial where
  value := serial.value
  begun := by
    intro other name
    rw [setPhase, serial.begun]
    by_cases same : other = id
    · subst same
      simp [here]
    · simp [same]
  committed := by
    intro other name
    rw [setPhase, serial.committed]
    by_cases same : other = id
    · subst same
      simp [here, unfinished, unended]
    · simp [same]
  begunOnce := serial.begunOnce
  committedOnce := serial.committedOnce

omit [DecidableEq Value] in
theorem serial_commit (serial : self.Serial update initial)
    (here : self.calls id = some ⟨op, .exchange self.value⟩) :
    Serial update initial { self.setPhase id op .done with
      value := update op self.value
      committed := self.committed ++ [(id, op)] } where
  value := by
    rw [apply_all_append, ← serial.value]
  begun := by
    intro other name
    rw [setPhase, serial.begun]
    by_cases same : other = id
    · subst same
      simp [here]
    · simp [same]
  committed := by
    intro other name
    rw [setPhase, List.mem_append, serial.committed]
    by_cases same : other = id
    · subst same
      simp [here, eq_comm]
    · simp [same]
  begunOnce := serial.begunOnce
  committedOnce := by
    have fresh : id ∉ self.committed.map Prod.fst := by
      intro member
      obtain ⟨⟨other, name⟩, found, same⟩ := List.mem_map.mp member
      have done := (serial.committed other name).mp found
      rw [show other = id from same, here] at done
      simp at done
    rw [List.map_append, List.nodup_append]
    refine ⟨serial.committedOnce, List.nodup_singleton _, ?_⟩
    intro first member second single equal
    rw [List.map_singleton, List.mem_singleton] at single
    rw [equal, single] at member
    exact fresh member

omit [DecidableEq Value] in
theorem serial_call (serial : self.Serial update initial) (fresh : self.calls id = none) (op : Op) :
    Serial update initial { self.setPhase id op .load with begun := self.begun ++ [(id, op)] } where
  value := serial.value
  begun := by
    intro other name
    rw [setPhase, List.mem_append, serial.begun]
    by_cases same : other = id
    · subst same
      simp [fresh, eq_comm]
    · simp [same]
  committed := by
    intro other name
    rw [setPhase, serial.committed]
    by_cases same : other = id
    · subst same
      simp [fresh]
    · simp [same]
  begunOnce := by
    have unseen : id ∉ self.begun.map Prod.fst := by
      intro member
      obtain ⟨⟨other, name⟩, found, same⟩ := List.mem_map.mp member
      obtain ⟨phase, known⟩ := (serial.begun other name).mp found
      rw [show other = id from same, fresh] at known
      cases known
    rw [List.map_append, List.nodup_append]
    refine ⟨serial.begunOnce, List.nodup_singleton _, ?_⟩
    intro first member second single equal
    rw [List.map_singleton, List.mem_singleton] at single
    rw [equal, single] at member
    exact unseen member
  committedOnce := serial.committedOnce

theorem serial_step (serial : self.Serial update initial) (id : Nat) (spurious : Bool) :
    (self.step update id spurious).Serial update initial := by
  unfold step
  split
  · rename_i op here
    exact serial_phase serial here (by simp) (by simp)
  · rename_i op seen here
    split_ifs with exchanged
    · obtain ⟨rfl, _⟩ := exchanged
      exact serial_commit serial here
    · exact serial_phase serial here (by simp) (by simp)
  · exact serial

theorem serial_move (serial : self.Serial update initial) (move : Move Op) :
    (self.move update move).Serial update initial := by
  cases move with
  | call id op =>
      simp only [State.move]
      split
      · rename_i fresh
        exact serial_call serial fresh op
      · exact serial
  | step id spurious => exact serial_step serial id spurious

theorem serial_run (serial : self.Serial update initial) (moves : List (Move Op)) :
    (self.run update moves).Serial update initial := by
  induction moves generalizing self with
  | nil => exact serial
  | cons move rest induction => exact induction (serial_move serial move)

omit [DecidableEq Value] in
/-- With no call in progress, what is committed is what has begun. -/
theorem committed_perm (serial : self.Serial update initial) (quiet : self.Quiet) :
    self.committed.Perm self.begun := by
  have committedOnce := serial.committedOnce.of_map
  have begunOnce := serial.begunOnce.of_map
  rw [List.perm_ext_iff_of_nodup committedOnce begunOnce]
  intro ⟨id, op⟩
  rw [serial.committed, serial.begun]
  constructor
  · exact fun done => ⟨.done, done⟩
  · intro ⟨phase, known⟩
    have done : phase = .done := quiet id _ known
    rw [known, done]

omit [DecidableEq Value] in
theorem quiet_of_committed (serial : self.Serial update initial)
    (all : ∀ call ∈ self.begun, call ∈ self.committed) : self.Quiet := by
  intro id call known
  have begun := (serial.begun id call.op).mpr ⟨call.phase, known⟩
  have done := (serial.committed id call.op).mp (all _ begun)
  rw [known] at done
  exact congrArg Call.phase (Option.some.inj done)

end Serial

/-! ### Progress -/

section Progress

variable {update} {initial : Value} {self : State Value Op} {id other : Nat} {op : Op}
  {phase : Phase Value} {spurious : Bool}

theorem step_load (here : self.calls id = some ⟨op, .load⟩) :
    self.step update id spurious = self.setPhase id op (.exchange self.value) := by
  simp only [step, here]

theorem step_exchange (here : self.calls id = some ⟨op, .exchange self.value⟩) :
    (self.step update id false).calls id = some ⟨op, .done⟩ := by
  simp only [step, here, and_self, if_true, setPhase, Function.update_self]

theorem step_lost {seen : Value} (here : self.calls id = some ⟨op, .exchange seen⟩)
    (stale : self.value ≠ seen) :
    self.step update id spurious = self.setPhase id op .load := by
  simp only [step, here, stale, false_and, if_false]

theorem step_done (here : self.calls id = some ⟨op, .done⟩) :
    self.step update id spurious = self := by
  simp only [step, here]

theorem step_other (different : other ≠ id) :
    (self.step update id spurious).calls other = self.calls other := by
  unfold step
  split
  · exact Function.update_of_ne different _ _
  · split_ifs
    · exact Function.update_of_ne different _ _
    · exact Function.update_of_ne different _ _
  · rfl

theorem step_begun : (self.step update id spurious).begun = self.begun := by
  unfold step
  split
  · rfl
  · split_ifs <;> rfl
  · rfl

theorem alone_eq : self.run update (alone id) =
    ((self.step update id false).step update id false).step update id false := rfl

theorem alone_done (here : self.calls id = some ⟨op, phase⟩) :
    (self.run update (alone id)).calls id = some ⟨op, .done⟩ := by
  have fromLoad : ∀ state : State Value Op, state.calls id = some ⟨op, .load⟩ →
      ((state.step update id false).step update id false).calls id = some ⟨op, .done⟩ := by
    intro state loading
    rw [step_load loading]
    exact step_exchange (Function.update_self ..)
  rw [alone_eq]
  cases phase with
  | load =>
      rw [step_done (fromLoad self here)]
      exact fromLoad self here
  | exchange seen =>
      by_cases fresh : self.value = seen
      · subst fresh
        have done : (self.step update id false).calls id = some ⟨op, .done⟩ := step_exchange here
        rw [step_done done, step_done done]
        exact done
      · rw [step_lost here fresh]
        exact fromLoad _ (Function.update_self ..)
  | done => rwa [step_done here, step_done here, step_done here]

theorem alone_other (different : other ≠ id) :
    (self.run update (alone id)).calls other = self.calls other := by
  rw [alone_eq, step_other different, step_other different, step_other different]

theorem alone_begun : (self.run update (alone id)).begun = self.begun := by
  rw [alone_eq, step_begun, step_begun, step_begun]

theorem finish_all {ids : List Nat}
    (pending : ∀ id call, self.calls id = some call → call.phase = .done ∨ id ∈ ids) :
    (self.run update (ids.flatMap alone)).Quiet ∧
      (self.run update (ids.flatMap alone)).begun = self.begun := by
  induction ids generalizing self with
  | nil => exact ⟨fun id call known => (pending id call known).resolve_right (by simp), rfl⟩
  | cons first rest induction =>
      have later : ∀ id call, (self.run update (alone first)).calls id = some call →
          call.phase = .done ∨ id ∈ rest := by
        intro id call known
        by_cases same : id = first
        · subst same
          cases before : self.calls id with
          | none =>
              have idle : self.run update (alone id) = self := by
                rw [alone_eq]
                simp only [step, before]
              rw [idle, before] at known
              cases known
          | some old =>
              rw [alone_done before] at known
              exact Or.inl (congrArg Call.phase (Option.some.inj known)).symm
        · rw [alone_other same] at known
          exact (pending id call known).imp_right fun member => (List.mem_cons.mp member).resolve_left same
      obtain ⟨quiet, begun⟩ := induction later
      rw [List.flatMap_cons, run, List.foldl_append]
      exact ⟨quiet, begun.trans alone_begun⟩

/-- From every state some steps finish all calls that have begun. -/
theorem finishes (serial : self.Serial update initial) :
    ∃ future, (∀ move ∈ future, ∃ id, move = Move.step id false) ∧
      (self.run update future).Quiet ∧ (self.run update future).begun = self.begun := by
  refine ⟨(self.begun.map Prod.fst).flatMap alone, ?_, finish_all ?_⟩
  · intro move member
    obtain ⟨id, _, listed⟩ := List.mem_flatMap.mp member
    exact ⟨id, (List.mem_replicate.mp listed).2⟩
  · intro id call known
    exact Or.inr (List.mem_map_of_mem ((serial.begun id call.op).mpr ⟨call.phase, known⟩))

end Progress

end State

end PulseMap.RetryLoop
