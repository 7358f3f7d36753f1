import PulseMap.Library.Progress
import PulseMap.Library.Splitting

/-!
Clients of copies do not get stuck when the copies alone do not: a client is inside one copy
at most, so a client that waits in a copy waits for threads that are inside that copy
as well, and what they can do there they can do as clients.
-/

namespace PulseMap

variable {machine : Machine} {Index Call Answer Note Client : Type} [DecidableEq Index]

/-- A call starts with an action that never waits. -/
def Service.Opens (service : Service machine Call Answer) : Prop :=
  ∀ request, ∃ action next, service.work request = .act action next ∧
    ∀ thread shared, (machine.perform thread action shared).isSome

variable {service : Service machine Call Answer} {start : machine.Shared}
  {script : Client → Script machine Index Call Answer Note} {moves : List (Move Client)}
  {system : System (machine.copies Index Note)} {split : Index → List (Move Call)}
  {stage : Nat → ClientStage machine Index Call Answer Note} {thread : Nat} {index : Index}

section Scripts

theorem script_acts (opens : service.Opens) (script : Script machine Index Call Answer Note)
    (program : system.programs thread = script.compile service.work) :
    ∃ after, system.Acts after thread := by
  cases script with
  | done note => exact System.acts_of_performed program rfl
  | call index request next =>
      obtain ⟨action, rest, work, answers⟩ := opens request
      rw [Script.compile, work] at program
      have performed := answers thread (Copies.parts system.shared index)
      obtain ⟨⟨response, after⟩, performed⟩ := Option.isSome_iff_exists.mp performed
      exact System.acts_of_performed program (Option.isSome_of_eq_some (Machine.copies_on performed))
  | look index query next =>
      obtain ⟨response, performed⟩ := query.answers thread (Copies.parts system.shared index)
      exact System.acts_of_performed program (Option.isSome_of_eq_some (Machine.copies_on performed))

theorem script_runs (opens : service.Opens) (script : Script machine Index Call Answer Note) :
    script.compile service.work ≠ .panic := by
  intro panics
  cases script with
  | done note => cases panics
  | call index request next =>
      obtain ⟨action, rest, work, _⟩ := opens request
      rw [Script.compile, work] at panics
      cases panics
  | look index query next => cases panics

end Scripts

section Clients

variable (splits : Splits service start script moves system split stage)
include splits

theorem clients_panic (opens : service.Opens) (panicked : system.programs thread = .panic) :
    ∃ index, (service.alone start (split index)).programs thread = .panic := by
  rw [splits.programs] at panicked
  cases here : stage thread with
  | idle =>
      rw [here] at panicked
      cases panicked
  | between left =>
      rw [here] at panicked
      exact absurd panicked (script_runs opens left)
  | inside index request rest next =>
      rw [here] at panicked
      refine ⟨index, ?_⟩
      rw [splits.parts, here, ClientStage.part, if_pos rfl]
      cases rest with
      | done answer => exact absurd panicked (script_runs opens (next answer))
      | panic => rfl
      | act action rest => cases panicked

/-- What a thread is about to do in a copy it is about to do as a client. -/
theorem clients_stand {action : machine.Action} {next : machine.Response action → Program machine Unit}
    (program : (service.alone start (split index)).programs thread = .act action next) :
    ∃ following, system.programs thread = .act (CopiesAction.on index action) following := by
  rw [splits.parts] at program
  have whole := splits.programs thread
  cases here : stage thread with
  | idle =>
      rw [here] at program
      cases program
  | between left =>
      rw [here] at program
      cases program
  | inside place request rest following =>
      rw [here] at program whole
      rw [ClientStage.part] at program
      split_ifs at program with same
      subst same
      cases rest with
      | done answer => cases program
      | panic => cases program
      | act other rest =>
          cases program
          exact ⟨_, whole⟩

theorem clients_follow {after : System machine}
    (acts : (service.alone start (split index)).Acts after thread) : ∃ final, system.Acts final thread := by
  obtain ⟨action, next, response, shared, program, performed, _⟩ := acts
  obtain ⟨following, whole⟩ := clients_stand splits program
  rw [splits.shared] at performed
  exact System.acts_of_performed whole (Option.isSome_of_eq_some (Machine.copies_on performed))

/-- A client that has not ended can act, or it is busy in a copy. -/
theorem clients_act (opens : service.Opens) (busy : (system.programs thread).ended = false) :
    (∃ after, system.Acts after thread) ∨
      ∃ index, ((service.alone start (split index)).programs thread).ended = false := by
  have whole := splits.programs thread
  cases here : stage thread with
  | idle =>
      rw [whole, here] at busy
      cases busy
  | between left =>
      rw [here] at whole
      exact Or.inl (script_acts opens left whole)
  | inside index request rest next =>
      rw [here] at whole
      cases rest with
      | done answer => exact Or.inl (script_acts opens (next answer) whole)
      | panic =>
          rw [whole] at busy
          cases busy
      | act action rest =>
          refine Or.inr ⟨index, ?_⟩
          rw [splits.parts, here, ClientStage.part, if_pos rfl]
          rfl

end Clients

end PulseMap
