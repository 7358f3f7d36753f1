import PulseMap.Library.Discipline

/-!
The trace of a schedule: the calls that were started and the actions that were performed,
in their order. A chronicle is an account whose invariant may also speak of the trace.
-/

namespace PulseMap

inductive Event (machine : Machine) (Call : Type) where
  | called (thread : Nat) (call : Call)
  | acted (thread : Nat) (action : machine.Action) (response : machine.Response action)

def Event.calls {machine : Machine} {Call : Type} (test : Call → Bool) : Event machine Call → Bool
  | called _ call => test call
  | acted _ _ _ => false

def Move.calls {Call : Type} (test : Call → Bool) : Move Call → Bool
  | call _ request => test request
  | step _ => false

namespace System

variable {machine : Machine} {Call : Type}

/-- What an entry of the schedule amounts to; a blocked thread does nothing. -/
def event (self : System machine) : Move Call → Option (Event machine Call)
  | .call thread call =>
      if (self.programs thread).finished then some (.called thread call) else none
  | .step thread =>
      match self.programs thread with
      | .act action _ =>
          match machine.perform thread action self.shared with
          | none => none
          | some (response, _) => some (.acted thread action response)
      | _ => none

def trace (body : Call → Program machine Unit) (self : System machine) :
    List (Move Call) → List (Event machine Call)
  | [] => []
  | move :: rest => (self.event move).toList ++ (self.move body move).trace body rest

theorem event_acted {self : System machine} {thread : Nat} {action : machine.Action}
    {response : machine.Response action}
    (event : (self.event (.step thread) : Option (Event machine Call)) =
      some (.acted thread action response)) :
    ∃ next after, self.programs thread = .act action next ∧
      machine.perform thread action self.shared = some (response, after) := by
  cases program : self.programs thread with
  | done result => simp [System.event, program] at event
  | panic => simp [System.event, program] at event
  | act other next =>
      cases performed : machine.perform thread other self.shared with
      | none => simp [System.event, program, performed] at event
      | some outcome =>
          obtain ⟨answer, after⟩ := outcome
          simp only [System.event, program, performed, Option.some.injEq, Event.acted.injEq,
            true_and] at event
          obtain ⟨rfl, same⟩ := event
          obtain rfl := eq_of_heq same
          exact ⟨next, after, rfl, performed⟩

theorem called_scheduled (body : Call → Program machine Unit) {self : System machine}
    {moves : List (Move Call)} {thread : Nat} {request : Call}
    (member : .called thread request ∈ self.trace body moves) : .call thread request ∈ moves := by
  induction moves generalizing self with
  | nil => cases member
  | cons move rest induction =>
      rw [trace] at member
      rcases List.mem_append.mp member with now | later
      · cases move with
        | call other other_request =>
            simp only [event] at now
            split_ifs at now <;> simp_all
        | step other =>
            simp only [event] at now
            split at now
            · split at now <;> simp_all
            · simp at now
      · exact List.mem_cons_of_mem _ (induction later)

end System

def own {machine : Machine} {Call : Type} (thread : Nat) (events : List (Event machine Call)) :
    List ((action : machine.Action) × machine.Response action) :=
  events.filterMap fun event => match event with
    | .called _ _ => none
    | .acted other action response => if other = thread then some ⟨action, response⟩ else none

section Own

variable {machine : Machine} {Call : Type} {thread other : Nat}
  {action : machine.Action} {response : machine.Response action}

end Own

/-- With these answers to its actions the program ends in this result. -/
inductive Program.Answers {machine : Machine} {Result : Type} :
    Program machine Result → List ((action : machine.Action) × machine.Response action) → Result → Prop
  | done (result : Result) : Answers (.done result) [] result
  | act {action : machine.Action} {next : machine.Response action → Program machine Result}
      {response : machine.Response action}
      {rest : List ((action : machine.Action) × machine.Response action)} {result : Result} :
      Answers (next response) rest result → Answers (.act action next) (⟨action, response⟩ :: rest) result

namespace Program

variable {machine : Machine} {Result : Type} {result : Result}
  {steps : List ((action : machine.Action) × machine.Response action)}

end Program

/-! ### Chronicles -/

/-- An invariant of the trace, of the shared state and of all local states, kept by allowed
actions. -/
structure Chronicle {machine : Machine} (discipline : Discipline machine) {Call : Type}
    (body : Call → Program machine Unit) where
  start : Call → discipline.Local
  Final : discipline.Local → Prop
  Allowed : Nat → Call → Prop
  Known : machine.Shared → Prop
  Invariant : List (Event machine Call) → (Nat → discipline.Local) → machine.Shared → Prop
  follows : ∀ thread call, Allowed thread call →
    discipline.Follows (body call) (fun _ => Final) (start call)
  begins : ∀ past locals shared thread call, Allowed thread call → Known shared →
    Invariant past locals shared → Final (locals thread) →
    Invariant (past ++ [.called thread call]) (Function.update locals thread (start call)) shared
  acts : ∀ past locals shared thread action response after, Known shared →
    Invariant past locals shared → discipline.Allows (locals thread) action →
    machine.perform thread action shared = some (response, after) → Known after →
    Invariant (past ++ [.acted thread action response])
      (Function.update locals thread (discipline.next (locals thread) action response)) after

namespace Chronicle

variable {machine : Machine} {discipline : Discipline machine} {Call : Type}
  {body : Call → Program machine Unit} (chronicle : Chronicle discipline body)

structure Kept (past : List (Event machine Call)) (locals : Nat → discipline.Local)
    (system : System machine) : Prop where
  follows : ∀ thread,
    discipline.Follows (system.programs thread) (fun _ => chronicle.Final) (locals thread)
  invariant : chronicle.Invariant past locals system.shared

variable {chronicle} {system : System machine} {locals : Nat → discipline.Local}
  {past : List (Event machine Call)}

theorem kept_move (kept : chronicle.Kept past locals system)
    (known : chronicle.Known system.shared) (move : Move Call)
    (knownAfter : chronicle.Known (system.move body move).shared)
    (allowed : ∀ thread call, move = .call thread call → chronicle.Allowed thread call) :
    ∃ later, chronicle.Kept (past ++ (system.event move).toList) later (system.move body move) := by
  cases move with
  | call thread call =>
      have permitted := allowed thread call rfl
      by_cases finished : (system.programs thread).finished
      · simp only [System.move, System.event, finished, if_true, Option.toList_some]
        refine ⟨Function.update locals thread (chronicle.start call), ?_, ?_⟩
        · intro other
          by_cases same : other = thread
          · subst same
            simpa using chronicle.follows other call permitted
          · simpa [same] using kept.follows other
        · apply chronicle.begins past locals system.shared thread call permitted known
            kept.invariant
          have ended := kept.follows thread
          cases program : system.programs thread with
          | done result =>
              rw [program] at ended
              exact ended
          | panic => simp [program, Program.finished] at finished
          | act action next => simp [program, Program.finished] at finished
      · refine ⟨locals, ?_⟩
        simpa [System.move, System.event, finished] using kept
  | step thread =>
      have own := kept.follows thread
      cases program : system.programs thread with
      | done result =>
          refine ⟨locals, ?_⟩
          simpa [System.move, System.step, System.event, program] using kept
      | panic =>
          refine ⟨locals, ?_⟩
          simpa [System.move, System.step, System.event, program] using kept
      | act action next =>
          rw [program] at own
          cases performed : machine.perform thread action system.shared with
          | none =>
              refine ⟨locals, ?_⟩
              simpa [System.move, System.step, System.event, program, performed] using kept
          | some outcome =>
              obtain ⟨response, after⟩ := outcome
              simp only [System.move, System.step, System.event, program, performed,
                Option.toList_some] at knownAfter ⊢
              refine ⟨Function.update locals thread
                (discipline.next (locals thread) action response), ?_,
                chronicle.acts past locals system.shared thread action response after known
                  kept.invariant own.1 performed knownAfter⟩
              intro other
              by_cases same : other = thread
              · subst same
                simpa using own.2 response
              · simpa [same] using kept.follows other

theorem kept_run (kept : chronicle.Kept past locals system) (moves : List (Move Call))
    (known : ∀ front back, moves = front ++ back →
      chronicle.Known (system.run body front).shared)
    (allowed : ∀ thread call, .call thread call ∈ moves → chronicle.Allowed thread call) :
    ∃ later, chronicle.Kept (past ++ system.trace body moves) later (system.run body moves) := by
  induction moves generalizing system locals past with
  | nil =>
      rw [System.trace, List.append_nil]
      exact ⟨locals, kept⟩
  | cons move rest induction =>
      obtain ⟨later, keptLater⟩ := kept_move kept (known [] (move :: rest) rfl) move
        (known [move] rest rfl) (fun thread call same => allowed thread call (by simp [same]))
      rw [System.trace, ← List.append_assoc]
      apply induction keptLater
      · intro front back split
        exact known (move :: front) back (by rw [split]; rfl)
      · exact fun thread call member => allowed thread call (by simp [member])

end Chronicle

end PulseMap
