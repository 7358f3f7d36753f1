import Mathlib

/-!
Programs of atomic actions on a shared state, run by threads in any interleaving, and a
rely/guarantee logic for them. A machine says what an action does, or that it is blocked.
`Safe` is the precondition of a program: whatever the other threads do within their
guarantees, each of its actions keeps the invariant, gives the others what they rely on,
and leads to a program that is safe again. A system of safe programs keeps the invariant
under every schedule.
-/

namespace PulseMap

structure Machine where
  Shared : Type
  Action : Type
  Response : Action → Type
  /-- What a thread's action does; `none` means that it has to wait. -/
  perform : Nat → (action : Action) → Shared → Option (Response action × Shared)

inductive Program (machine : Machine) (Result : Type) : Type where
  | done (result : Result)
  | panic
  | act (action : machine.Action) (next : machine.Response action → Program machine Result)

namespace Program

variable {machine : Machine} {Result Next : Type}

def bind (program : Program machine Result) (next : Result → Program machine Next) :
    Program machine Next :=
  match program with
  | done result => next result
  | panic => panic
  | act action rest => act action fun response => (rest response).bind next

instance : Monad (Program machine) where
  pure := done
  bind := bind

def perform (action : machine.Action) : Program machine (machine.Response action) := act action done

@[simp] theorem pure_eq (result : Result) : (pure result : Program machine Result) = done result := rfl

@[simp] theorem done_bind (result : Result) (next : Result → Program machine Next) :
    (done result >>= next) = next result := rfl

@[simp] theorem panic_bind (next : Result → Program machine Next) :
    ((panic : Program machine Result) >>= next) = panic := rfl

@[simp] theorem act_bind (action : machine.Action)
    (rest : machine.Response action → Program machine Result)
    (next : Result → Program machine Next) :
    (act action rest >>= next) = act action fun response => rest response >>= next := rfl

@[simp] theorem perform_bind (action : machine.Action)
    (next : machine.Response action → Program machine Next) :
    (perform action >>= next) = act action next := rfl

theorem bind_assoc {Last : Type} (program : Program machine Result)
    (next : Result → Program machine Next) (last : Next → Program machine Last) :
    (program >>= next) >>= last = program >>= fun result => next result >>= last := by
  induction program with
  | done result => rfl
  | panic => rfl
  | act action rest induction => exact congrArg (Program.act action) (funext induction)

def finished : Program machine Result → Bool
  | done _ => true
  | _ => false

/-- Finished, or panicked. -/
def ended : Program machine Result → Bool
  | act _ _ => false
  | _ => true

/-- The program run by one thread without interference. -/
def exec (thread : Nat) : Program machine Result → machine.Shared → Option (Result × machine.Shared)
  | done result, shared => some (result, shared)
  | panic, _ => none
  | act action next, shared =>
      match machine.perform thread action shared with
      | none => none
      | some (response, after) => (next response).exec thread after

theorem exec_act {thread : Nat} {action : machine.Action}
    {next : machine.Response action → Program machine Result} {shared after : machine.Shared}
    {response : machine.Response action}
    (performed : machine.perform thread action shared = some (response, after)) :
    (Program.act action next).exec thread shared = (next response).exec thread after := by
  rw [Program.exec, performed]

theorem exec_bind (thread : Nat) (program : Program machine Result)
    (next : Result → Program machine Next) (shared : machine.Shared) :
    (program >>= next).exec thread shared =
      (program.exec thread shared).bind fun outcome => (next outcome.1).exec thread outcome.2 := by
  induction program generalizing shared with
  | done result => rfl
  | panic => rfl
  | act action rest induction =>
      rw [act_bind, exec, exec]
      cases machine.perform thread action shared with
      | none => rfl
      | some answer => exact induction answer.1 answer.2

theorem exec_then {thread : Nat} {program : Program machine Result}
    {next : Result → Program machine Next} {shared after : machine.Shared} {result : Result}
    (ran : program.exec thread shared = some (result, after)) :
    (program >>= next).exec thread shared = (next result).exec thread after := by
  rw [exec_bind, ran, Option.bind_some]

theorem exec_then_none {thread : Nat} {program : Program machine Result}
    {next : Result → Program machine Next} {shared : machine.Shared}
    (ran : program.exec thread shared = none) : (program >>= next).exec thread shared = none := by
  rw [exec_bind, ran]
  rfl

end Program

/-! ### Systems -/

structure System (machine : Machine) where
  shared : machine.Shared
  programs : Nat → Program machine Unit

/-- A schedule entry: a thread starts a call, or takes one step. -/
inductive Move (Call : Type) where
  | call (thread : Nat) (call : Call)
  | step (thread : Nat)

def Move.map {Call Other : Type} (encode : Call → Other) : Move Call → Move Other
  | call thread request => call thread (encode request)
  | step thread => step thread

namespace System

variable {machine : Machine} {Call : Type}

def step (self : System machine) (thread : Nat) : System machine :=
  match self.programs thread with
  | .act action next =>
      match machine.perform thread action self.shared with
      | none => self
      | some (response, shared) =>
          { shared := shared, programs := Function.update self.programs thread (next response) }
  | _ => self

/-- A call starts once the thread's previous program has finished. -/
def move (body : Call → Program machine Unit) (self : System machine) : Move Call → System machine
  | .call thread call =>
      if (self.programs thread).finished then
        { self with programs := Function.update self.programs thread (body call) }
      else self
  | .step thread => self.step thread

def run (body : Call → Program machine Unit) (self : System machine) (moves : List (Move Call)) :
    System machine :=
  moves.foldl (move body) self

theorem run_append (body : Call → Program machine Unit) (self : System machine)
    (past future : List (Move Call)) :
    self.run body (past ++ future) = (self.run body past).run body future :=
  List.foldl_append ..

theorem run_map {Other : Type} (body : Other → Program machine Unit) (encode : Call → Other)
    (self : System machine) (moves : List (Move Call)) :
    self.run body (moves.map (Move.map encode)) = self.run (fun call => body (encode call)) moves := by
  induction moves generalizing self with
  | nil => rfl
  | cons move rest induction =>
      have first : self.move body (move.map encode) = self.move (fun call => body (encode call)) move := by
        cases move <;> rfl
      rw [List.map_cons, run, List.foldl_cons, first]
      exact induction _

section Step

variable {self : System machine} {thread : Nat} {action : machine.Action}
  {next : machine.Response action → Program machine Unit} {response : machine.Response action}
  {after : machine.Shared}

theorem step_act (program : self.programs thread = .act action next)
    (performed : machine.perform thread action self.shared = some (response, after)) :
    self.step thread = ⟨after, Function.update self.programs thread (next response)⟩ := by
  simp only [step, program, performed]

theorem step_blocked (program : self.programs thread = .act action next)
    (waits : machine.perform thread action self.shared = none) : self.step thread = self := by
  simp only [step, program, waits]

/-- A step leaves the shared state alone, or is the next action of its thread. -/
theorem step_shared (self : System machine) (thread : Nat) :
    (self.step thread).shared = self.shared ∨
      ∃ action next response, self.programs thread = .act action next ∧
        machine.perform thread action self.shared = some (response, (self.step thread).shared) := by
  cases program : self.programs thread with
  | done result => exact Or.inl (by rw [step, program])
  | panic => exact Or.inl (by rw [step, program])
  | act action next =>
      cases answered : machine.perform thread action self.shared with
      | none => exact Or.inl (by rw [step_blocked program answered])
      | some answer =>
          refine Or.inr ⟨action, next, answer.1, rfl, ?_⟩
          rw [step_act program answered]
          exact answered

theorem move_call (body : Call → Program machine Unit) {call : Call}
    (idle : self.programs thread = .done ()) :
    self.move body (.call thread call) =
      ⟨self.shared, Function.update self.programs thread (body call)⟩ := by
  rw [move, idle]
  rfl

end Step

/-- A program that one thread runs alone to its end takes some number of that thread's steps. -/
theorem exec_steps (body : Call → Program machine Unit) {thread : Nat} {self : System machine}
    {program : Program machine Unit} {after : machine.Shared}
    (ran : program.exec thread self.shared = some ((), after)) :
    ∃ count, ({ self with programs := Function.update self.programs thread program }).run body
      (List.replicate count (.step thread)) =
        ⟨after, Function.update self.programs thread (.done ())⟩ := by
  induction program generalizing self with
  | done result =>
      cases ran
      exact ⟨0, rfl⟩
  | panic => cases ran
  | act action next induction =>
      rw [Program.exec] at ran
      cases answered : machine.perform thread action self.shared with
      | none =>
          rw [answered] at ran
          cases ran
      | some answer =>
          obtain ⟨response, shared⟩ := answer
          rw [answered] at ran
          let moved : System machine :=
            ⟨shared, Function.update self.programs thread (.act action next)⟩
          have left : (next response).exec thread moved.shared = some ((), after) := ran
          obtain ⟨count, steps⟩ := induction response left
          have stepped : ({ self with
              programs := Function.update self.programs thread (.act action next) } :
                System machine).step thread =
              { moved with programs := Function.update moved.programs thread (next response) } := by
            simp only [step, Function.update_self, answered, moved]
          refine ⟨count + 1, ?_⟩
          rw [List.replicate_succ, run, List.foldl_cons, move, stepped]
          exact steps.trans (by simp only [moved, Function.update_idem])

theorem exec_call (body : Call → Program machine Unit) {thread : Nat} {self : System machine}
    {call : Call} {after : machine.Shared} (idle : self.programs thread = .done ())
    (ran : (body call).exec thread self.shared = some ((), after)) :
    ∃ count, self.run body (.call thread call :: List.replicate count (.step thread)) =
      { self with shared := after } := by
  obtain ⟨count, steps⟩ := exec_steps body ran
  refine ⟨count, ?_⟩
  rw [run, List.foldl_cons, move_call body idle]
  refine steps.trans ?_
  rw [← idle, Function.update_eq_self]

end System

/-! ### Rely/guarantee -/

/-- The shared invariant, what each thread relies on, what each single action obeys, what
may be assumed of the states a schedule passes through, and what holds of a thread that
has panicked. -/
structure Protocol (machine : Machine) where
  Invariant : machine.Shared → Prop
  Rely : Nat → machine.Shared → machine.Shared → Prop
  Obeys : Nat → machine.Shared → machine.Shared → Prop
  Assumed : machine.Shared → Prop
  Panics : Nat → machine.Shared → Prop
  refl : ∀ thread shared, Rely thread shared shared
  trans : ∀ {thread first second third}, Rely thread first second → Rely thread second third →
    Rely thread first third
  panics : ∀ {thread before after}, Rely thread before after → Panics thread before →
    Panics thread after

namespace Protocol

variable {machine : Machine} (protocol : Protocol machine) {Result Next : Type}

/-- An action from `before` to `after` keeps the invariant and the others' reliances. -/
structure Guarantee (thread : Nat) (before after : machine.Shared) : Prop where
  invariant : protocol.Invariant after
  obeys : protocol.Obeys thread before after
  rely : ∀ other, other ≠ thread → protocol.Rely other before after

def Safe (thread : Nat) :
    Program machine Result → (Result → machine.Shared → Prop) → machine.Shared → Prop
  | .done result, post, shared => post result shared
  | .panic, _, shared => protocol.Panics thread shared
  | .act action next, post, shared =>
      ∀ current, protocol.Rely thread shared current → protocol.Invariant current →
        protocol.Assumed current → ∀ response after,
        machine.perform thread action current = some (response, after) →
        protocol.Guarantee thread current after ∧ Safe thread (next response) post after

variable {protocol} {thread : Nat}

theorem safe_bind {program : Program machine Result} {next : Result → Program machine Next}
    {post : Next → machine.Shared → Prop} {shared : machine.Shared}
    (safe : protocol.Safe thread program
      (fun result => protocol.Safe thread (next result) post) shared) :
    protocol.Safe thread (program >>= next) post shared := by
  induction program generalizing shared with
  | done result => exact safe
  | panic => exact safe
  | act action rest induction =>
      intro current rely invariant assumed response after performed
      obtain ⟨guarantee, rest⟩ := safe current rely invariant assumed response after performed
      exact ⟨guarantee, induction response rest⟩

theorem safe_mono {program : Program machine Result}
    {strong weak : Result → machine.Shared → Prop} {shared : machine.Shared}
    (safe : protocol.Safe thread program strong shared)
    (implies : ∀ result final, strong result final → weak result final) :
    protocol.Safe thread program weak shared := by
  induction program generalizing shared with
  | done result => exact implies result shared safe
  | panic => exact safe
  | act action rest induction =>
      intro current rely invariant assumed response after performed
      obtain ⟨guarantee, rest⟩ := safe current rely invariant assumed response after performed
      exact ⟨guarantee, induction response rest⟩

/-- A safe program stays safe while the others act. -/
theorem safe_rely {program : Program machine Result} {post : Result → machine.Shared → Prop}
    {shared later : machine.Shared}
    (stable : ∀ result before after, protocol.Rely thread before after → post result before →
      post result after)
    (safe : protocol.Safe thread program post shared)
    (rely : protocol.Rely thread shared later) : protocol.Safe thread program post later := by
  cases program with
  | done result => exact stable result shared later rely safe
  | panic => exact protocol.panics rely safe
  | act action rest =>
      intro current relied
      exact safe current (protocol.trans rely relied)

theorem safe_lasting {Lasting : machine.Shared → Prop} {program : Program machine Result}
    {post : Result → machine.Shared → Prop} {shared : machine.Shared}
    (lasts : ∀ other before after, protocol.Rely other before after → Lasting before → Lasting after)
    (holds : Lasting shared) (safe : protocol.Safe thread program post shared) :
    protocol.Safe thread program (fun result final => post result final ∧ Lasting final) shared := by
  induction program generalizing shared with
  | done result => exact ⟨safe, holds⟩
  | panic => exact safe
  | act action rest induction =>
      intro current rely invariant assumed response after performed
      obtain ⟨guarantee, rest⟩ := safe current rely invariant assumed response after performed
      refine ⟨guarantee, induction response ?_ rest⟩
      have another := guarantee.rely (thread + 1) (Nat.succ_ne_self thread)
      exact lasts (thread + 1) current after another (lasts thread shared current rely holds)

/-! ### Whole schedules -/

variable (protocol) {Call : Type}

/-- Every thread is safe up to a state in which it is idle. -/
structure Holds (Idle : Nat → machine.Shared → Prop) (system : System machine) : Prop where
  invariant : protocol.Invariant system.shared
  safe : ∀ thread, protocol.Safe thread (system.programs thread) (fun _ => Idle thread) system.shared

variable {protocol} {Idle : Nat → machine.Shared → Prop} {system : System machine}

theorem holds_step (holds : protocol.Holds Idle system) (assumed : protocol.Assumed system.shared)
    (stable : ∀ thread before after, protocol.Rely thread before after → Idle thread before →
      Idle thread after) (thread : Nat) :
    protocol.Holds Idle (system.step thread) := by
  unfold System.step
  have own := holds.safe thread
  split
  case h_1 action next program =>
    rw [program] at own
    split
    case h_1 => exact holds
    case h_2 response after performed =>
      obtain ⟨guarantee, rest⟩ := own system.shared (protocol.refl thread system.shared)
        holds.invariant assumed response after performed
      refine ⟨guarantee.invariant, ?_⟩
      intro other
      by_cases same : other = thread
      · subst same
        simpa using rest
      · simpa [same] using safe_rely (fun _ => stable other) (holds.safe other)
          (guarantee.rely other same)
  case h_2 => exact holds

theorem holds_move (body : Call → Program machine Unit) (Allowed : Call → Prop)
    (holds : protocol.Holds Idle system) (assumed : protocol.Assumed system.shared)
    (stable : ∀ thread before after, protocol.Rely thread before after → Idle thread before →
      Idle thread after)
    (calls : ∀ thread call shared, Allowed call → protocol.Invariant shared → Idle thread shared →
      protocol.Safe thread (body call) (fun _ => Idle thread) shared)
    (move : Move Call) (allowed : ∀ thread call, move = .call thread call → Allowed call) :
    protocol.Holds Idle (system.move body move) := by
  cases move with
  | step thread => exact holds_step holds assumed stable thread
  | call thread call =>
      simp only [System.move]
      split_ifs with finished
      · refine ⟨holds.invariant, ?_⟩
        intro other
        by_cases same : other = thread
        · subst same
          have own := holds.safe other
          cases program : system.programs other with
          | done result =>
              rw [program] at own
              simpa using calls other call system.shared (allowed other call rfl) holds.invariant own
          | panic => simp [program, Program.finished] at finished
          | act action next => simp [program, Program.finished] at finished
        · simpa [same] using holds.safe other
      · exact holds

theorem holds_run (body : Call → Program machine Unit) (Allowed : Call → Prop)
    (holds : protocol.Holds Idle system)
    (stable : ∀ thread before after, protocol.Rely thread before after → Idle thread before →
      Idle thread after)
    (calls : ∀ thread call shared, Allowed call → protocol.Invariant shared → Idle thread shared →
      protocol.Safe thread (body call) (fun _ => Idle thread) shared)
    (moves : List (Move Call))
    (assumed : ∀ past future, moves = past ++ future →
      protocol.Assumed (system.run body past).shared)
    (allowed : ∀ thread call, .call thread call ∈ moves → Allowed call) :
    protocol.Holds Idle (system.run body moves) := by
  induction moves generalizing system with
  | nil => exact holds
  | cons move rest induction =>
      have first := holds_move body Allowed holds (assumed [] (move :: rest) rfl) stable calls move
        (fun thread call same => allowed thread call (by simp [same]))
      apply induction first
      · intro past future split
        exact assumed (move :: past) future (by rw [split]; rfl)
      · exact fun thread call member => allowed thread call (by simp [member])

theorem step_guarantee (holds : protocol.Holds Idle system)
    (assumed : protocol.Assumed system.shared) (thread : Nat) :
    (system.step thread).shared = system.shared ∨
      protocol.Guarantee thread system.shared (system.step thread).shared := by
  have own := holds.safe thread
  unfold System.step
  split
  case h_1 action next program =>
    rw [program] at own
    split
    case h_1 => exact Or.inl rfl
    case h_2 response after performed =>
      exact Or.inr (own system.shared (protocol.refl thread system.shared) holds.invariant assumed
        response after performed).1
  case h_2 => exact Or.inl rfl

theorem move_rely (body : Call → Program machine Unit) (holds : protocol.Holds Idle system)
    (assumed : protocol.Assumed system.shared) {move : Move Call} {thread : Nat}
    (away : move ≠ .step thread) :
    protocol.Rely thread system.shared (system.move body move).shared := by
  cases move with
  | call other call =>
      simp only [System.move]
      split_ifs <;> exact protocol.refl thread system.shared
  | step other =>
      have different : thread ≠ other := by
        rintro rfl
        exact away rfl
      rcases step_guarantee holds assumed other with same | guarantee
      · rw [System.move, same]
        exact protocol.refl thread system.shared
      · exact guarantee.rely thread different

/-- A schedule in which a thread takes no step gives it what it relies on. -/
theorem run_rely (body : Call → Program machine Unit) (Allowed : Call → Prop)
    (holds : protocol.Holds Idle system)
    (stable : ∀ thread before after, protocol.Rely thread before after → Idle thread before →
      Idle thread after)
    (calls : ∀ thread call shared, Allowed call → protocol.Invariant shared → Idle thread shared →
      protocol.Safe thread (body call) (fun _ => Idle thread) shared)
    (moves : List (Move Call)) (thread : Nat) (away : .step thread ∉ moves)
    (assumed : ∀ past future, moves = past ++ future →
      protocol.Assumed (system.run body past).shared)
    (allowed : ∀ thread call, .call thread call ∈ moves → Allowed call) :
    protocol.Rely thread system.shared (system.run body moves).shared := by
  induction moves generalizing system with
  | nil => exact protocol.refl thread system.shared
  | cons move rest induction =>
      have now := assumed [] (move :: rest) rfl
      have notStep : move ≠ .step thread := by
        rintro rfl
        simp at away
      have first := holds_move body Allowed holds now stable calls move
        (fun thread call same => allowed thread call (by simp [same]))
      apply protocol.trans (move_rely body holds now notStep)
      apply induction first
      · exact fun member => away (by simp [member])
      · intro past future split
        exact assumed (move :: past) future (by rw [split]; rfl)
      · exact fun thread call member => allowed thread call (by simp [member])

end Protocol

end PulseMap
