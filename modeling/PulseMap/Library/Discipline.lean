import PulseMap.Library.Program

/-!
Disciplines: rules on the order of a program's actions. A thread has a local state that
its actions and their responses move; a program follows the discipline when each of its
actions is allowed in the local state it finds, whatever the responses are. For a system
of such programs an invariant of the shared state and of all local states needs to be
shown for allowed actions only.
-/

namespace PulseMap

structure Discipline (machine : Machine) where
  Local : Type
  Allows : Local → machine.Action → Prop
  next : Local → (action : machine.Action) → machine.Response action → Local
  /-- Where a program may panic. -/
  Panics : Local → Prop := fun _ => True

namespace Discipline

variable {machine : Machine} (discipline : Discipline machine) {Result Next : Type}

def Follows : Program machine Result → (Result → discipline.Local → Prop) → discipline.Local → Prop
  | .done result, post, place => post result place
  | .panic, _, place => discipline.Panics place
  | .act action rest, post, place => discipline.Allows place action ∧
      ∀ response, Follows (rest response) post (discipline.next place action response)

variable {discipline}

theorem follows_bind {program : Program machine Result} {next : Result → Program machine Next}
    {post : Next → discipline.Local → Prop} {place : discipline.Local}
    (follows : discipline.Follows program
      (fun result => discipline.Follows (next result) post) place) :
    discipline.Follows (program >>= next) post place := by
  induction program generalizing place with
  | done result => exact follows
  | panic => exact follows
  | act action rest induction =>
      exact ⟨follows.1, fun response => induction response (follows.2 response)⟩

theorem follows_mono {program : Program machine Result}
    {strong weak : Result → discipline.Local → Prop} {place : discipline.Local}
    (follows : discipline.Follows program strong place)
    (implies : ∀ result final, strong result final → weak result final) :
    discipline.Follows program weak place := by
  induction program generalizing place with
  | done result => exact implies result place follows
  | panic => exact follows
  | act action rest induction =>
      exact ⟨follows.1, fun response => induction response (follows.2 response)⟩

def both (first second : Discipline machine) : Discipline machine where
  Local := first.Local × second.Local
  Allows := fun place action => first.Allows place.1 action ∧ second.Allows place.2 action
  next := fun place action response =>
    (first.next place.1 action response, second.next place.2 action response)
  Panics := fun place => first.Panics place.1 ∧ second.Panics place.2

theorem follows_both {first second : Discipline machine} {program : Program machine Result}
    {onFirst : Result → first.Local → Prop} {onSecond : Result → second.Local → Prop}
    {place : first.Local} {other : second.Local} (one : first.Follows program onFirst place)
    (two : second.Follows program onSecond other) :
    (both first second).Follows program
      (fun result final => onFirst result final.1 ∧ onSecond result final.2) (place, other) := by
  induction program generalizing place other with
  | done result => exact ⟨one, two⟩
  | panic => exact ⟨one, two⟩
  | act action rest induction =>
      exact ⟨⟨one.1, two.1⟩, fun response => induction response (one.2 response) (two.2 response)⟩

end Discipline

/-! ### Systems -/

/-- An invariant of the shared state and of all local states, kept by allowed actions.
`Known` is what is known of the shared states anyway. -/
structure Account {machine : Machine} (discipline : Discipline machine) {Call : Type}
    (body : Call → Program machine Unit) where
  start : Call → discipline.Local
  Final : discipline.Local → Prop
  Allowed : Nat → Call → Prop
  Known : machine.Shared → Prop
  Invariant : (Nat → discipline.Local) → machine.Shared → Prop
  follows : ∀ thread call, Allowed thread call →
    discipline.Follows (body call) (fun _ => Final) (start call)
  begins : ∀ locals shared thread call, Allowed thread call → Known shared →
    Invariant locals shared → Final (locals thread) →
    Invariant (Function.update locals thread (start call)) shared
  acts : ∀ locals shared thread action response after, Known shared → Invariant locals shared →
    discipline.Allows (locals thread) action →
    machine.perform thread action shared = some (response, after) →
    Invariant (Function.update locals thread (discipline.next (locals thread) action response)) after

namespace Account

variable {machine : Machine} {discipline : Discipline machine} {Call : Type}
  {body : Call → Program machine Unit} (account : Account discipline body)

structure Kept (locals : Nat → discipline.Local) (system : System machine) : Prop where
  follows : ∀ thread,
    discipline.Follows (system.programs thread) (fun _ => account.Final) (locals thread)
  invariant : account.Invariant locals system.shared

variable {account} {system : System machine} {locals : Nat → discipline.Local}

theorem kept_move (kept : account.Kept locals system) (known : account.Known system.shared)
    (move : Move Call)
    (allowed : ∀ thread call, move = .call thread call → account.Allowed thread call) :
    ∃ later, account.Kept later (system.move body move) := by
  cases move with
  | call thread call =>
      simp only [System.move]
      have permitted := allowed thread call rfl
      split_ifs with finished
      · refine ⟨Function.update locals thread (account.start call), ?_, ?_⟩
        · intro other
          by_cases same : other = thread
          · subst same
            simpa using account.follows other call permitted
          · simpa [same] using kept.follows other
        · apply account.begins locals system.shared thread call permitted known kept.invariant
          have ended := kept.follows thread
          cases program : system.programs thread with
          | done result =>
              rw [program] at ended
              exact ended
          | panic => simp [program, Program.finished] at finished
          | act action next => simp [program, Program.finished] at finished
      · exact ⟨locals, kept⟩
  | step thread =>
      simp only [System.move, System.step]
      have own := kept.follows thread
      split
      case h_1 action next program =>
        rw [program] at own
        split
        case h_1 => exact ⟨locals, kept⟩
        case h_2 response after performed =>
          refine ⟨Function.update locals thread
            (discipline.next (locals thread) action response), ?_,
            account.acts locals system.shared thread action response after known kept.invariant
              own.1 performed⟩
          intro other
          by_cases same : other = thread
          · subst same
            simpa using own.2 response
          · simpa [same] using kept.follows other
      case h_2 => exact ⟨locals, kept⟩

/-- The invariant of shared and local states along every schedule. -/
theorem kept_run (kept : account.Kept locals system) (moves : List (Move Call))
    (known : ∀ past future, moves = past ++ future → account.Known (system.run body past).shared)
    (allowed : ∀ thread call, .call thread call ∈ moves → account.Allowed thread call) :
    ∃ later, account.Kept later (system.run body moves) := by
  induction moves generalizing system locals with
  | nil => exact ⟨locals, kept⟩
  | cons move rest induction =>
      obtain ⟨later, keptLater⟩ := kept_move kept (known [] (move :: rest) rfl) move
        (fun thread call same => allowed thread call (by simp [same]))
      apply induction keptLater
      · intro past future split
        exact known (move :: past) future (by rw [split]; rfl)
      · exact fun thread call member => allowed thread call (by simp [member])

end Account

end PulseMap
