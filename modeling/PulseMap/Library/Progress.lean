import PulseMap.Library.Program

/-!
Systems that are left to themselves: no thread starts another program. Each action leaves a
smaller program to its thread, so finitely many threads cannot act for ever; and where
some thread can act as long as one has not finished, every way of acting goes on until
all have finished.
-/

namespace PulseMap

open Relation

variable {machine : Machine}

namespace Program

variable {Result : Type}

/-- What an action of a program leaves of it. -/
def Leaves (rest program : Program machine Result) : Prop :=
  ∃ action next response, program = .act action next ∧ rest = next response

theorem leaves_well_founded :
    WellFounded (Leaves : Program machine Result → Program machine Result → Prop) := by
  constructor
  intro program
  induction program with
  | done result =>
      constructor
      rintro rest ⟨action, next, response, same, _⟩
      cases same
  | panic =>
      constructor
      rintro rest ⟨action, next, response, same, _⟩
      cases same
  | act action next induction =>
      constructor
      rintro rest ⟨_, _, response, same, rfl⟩
      cases same
      exact induction response

end Program

namespace System

def Acts (before after : System machine) (thread : Nat) : Prop :=
  ∃ action next response shared, before.programs thread = .act action next ∧
    machine.perform thread action before.shared = some (response, shared) ∧
    after = ⟨shared, Function.update before.programs thread (next response)⟩

variable {before after system : System machine} {thread : Nat}

theorem Acts.step (acts : before.Acts after thread) : after = before.step thread := by
  obtain ⟨action, next, response, shared, program, performed, rfl⟩ := acts
  exact (step_act program performed).symm

theorem step_acts (system : System machine) (thread : Nat) :
    system.step thread = system ∨ system.Acts (system.step thread) thread := by
  cases program : system.programs thread with
  | done result => exact Or.inl (by rw [step, program])
  | panic => exact Or.inl (by rw [step, program])
  | act action next =>
      cases answered : machine.perform thread action system.shared with
      | none => exact Or.inl (step_blocked program answered)
      | some answer =>
          exact Or.inr ⟨action, next, answer.1, answer.2, program, answered, step_act program answered⟩

theorem acts_of_performed {action : machine.Action}
    {next : machine.Response action → Program machine Unit}
    (program : system.programs thread = .act action next)
    (performed : (machine.perform thread action system.shared).isSome) :
    ∃ after, system.Acts after thread := by
  obtain ⟨⟨response, shared⟩, performed⟩ := Option.isSome_iff_exists.mp performed
  exact ⟨_, action, next, response, shared, program, performed, rfl⟩

/-- All other threads have finished. -/
def Within (threads : Finset Nat) (system : System machine) : Prop :=
  ∀ thread, (system.programs thread).finished = false → thread ∈ threads

theorem Acts.mem {threads : Finset Nat} (within : before.Within threads)
    (acts : before.Acts after thread) : thread ∈ threads := by
  obtain ⟨action, next, response, shared, program, _, _⟩ := acts
  exact within thread (by rw [program]; rfl)

theorem Acts.within {threads : Finset Nat} (within : before.Within threads)
    (acts : before.Acts after thread) : after.Within threads := by
  have member := acts.mem within
  obtain ⟨action, next, response, shared, program, _, rfl⟩ := acts
  intro other busy
  by_cases same : other = thread
  · rw [same]
    exact member
  · apply within other
    change (Function.update before.programs thread (next response) other).finished = false at busy
    rwa [Function.update_of_ne same] at busy

/-- Some thread acts, and no other program is started. -/
def Advances (threads : Finset Nat) (after before : System machine) : Prop :=
  before.Within threads ∧ ∃ thread, before.Acts after thread

def remaining (threads : Finset Nat) (system : System machine) : Multiset (Program machine Unit) :=
  threads.val.map system.programs

theorem remaining_update {threads : Finset Nat} (member : thread ∈ threads)
    (shared : machine.Shared) (rest : Program machine Unit) :
    remaining threads ⟨shared, Function.update system.programs thread rest⟩ + {system.programs thread} =
      remaining threads system + {rest} := by
  have split : threads.val = thread ::ₘ threads.val.erase thread :=
    (Multiset.cons_erase (Finset.mem_val.mpr member)).symm
  have others : (threads.val.erase thread).map (Function.update system.programs thread rest) =
      (threads.val.erase thread).map system.programs := by
    apply Multiset.map_congr rfl
    intro other left
    have different : other ≠ thread := by
      rintro rfl
      exact (Multiset.Nodup.notMem_erase threads.nodup) left
    rw [Function.update_of_ne different]
  change threads.val.map (Function.update system.programs thread rest) + _ = _
  rw [remaining, split, Multiset.map_cons, Multiset.map_cons, others, Function.update_self]
  simp only [← Multiset.singleton_add]
  abel

/-- Finitely many threads cannot act for ever. -/
theorem advances_well_founded (threads : Finset Nat) :
    WellFounded (Advances threads : System machine → System machine → Prop) := by
  refine Subrelation.wf ?_ (InvImage.wf (remaining threads) Program.leaves_well_founded.cutExpand)
  rintro after before ⟨within, thread, acts⟩
  have member := acts.mem within
  obtain ⟨action, next, response, shared, program, _, rfl⟩ := acts
  refine ⟨{next response}, before.programs thread, ?_, remaining_update member shared _⟩
  intro rest here
  rw [Multiset.mem_singleton.mp here]
  exact ⟨action, next, response, program, rfl⟩

theorem no_endless_run {threads : Finset Nat} (states : Nat → System machine)
    (within : (states 0).Within threads) :
    ¬∀ count, ∃ thread, (states count).Acts (states (count + 1)) thread := by
  intro acts
  have inside : ∀ count, (states count).Within threads := by
    intro count
    induction count with
    | zero => exact within
    | succ count induction =>
        obtain ⟨thread, act⟩ := acts count
        exact act.within induction
  exact (wellFounded_iff_isEmpty_descending_chain.mp (advances_well_founded threads)).elim
    ⟨states, fun count => ⟨inside count, acts count⟩⟩

def callers {Call : Type} (moves : List (Move Call)) : Finset Nat :=
  (moves.filterMap fun move => match move with
    | .call thread _ => some thread
    | .step _ => none).toFinset

theorem within_run {Call : Type} (body : Call → Program machine Unit) (shared : machine.Shared)
    (moves : List (Move Call)) :
    (run body ⟨shared, fun _ => .done ()⟩ moves).Within (callers moves) := by
  induction moves using List.reverseRecOn with
  | nil =>
      intro thread busy
      cases busy
  | append_singleton past move induction =>
      rw [run_append]
      change ((run body ⟨shared, fun _ => .done ()⟩ past).move body move).Within _
      generalize run body ⟨shared, fun _ => .done ()⟩ past = system at induction ⊢
      have old : system.Within (callers (past ++ [move])) := by
        intro thread busy
        have member := induction thread busy
        simp only [callers, List.filterMap_append, List.toFinset_append] at member ⊢
        exact Finset.mem_union_left _ member
      cases move with
      | call caller call =>
          rw [System.move]
          split_ifs
          · intro thread busy
            by_cases same : thread = caller
            · simp [callers, same]
            · apply old thread
              change (Function.update system.programs caller (body call) thread).finished = false at busy
              rwa [Function.update_of_ne same] at busy
          · exact old
      | step caller =>
          rcases step_acts system caller with same | acts
          · rw [System.move, same]
            exact old
          · exact acts.within old

def runIn (system : System machine) (order : List Nat) : System machine := order.foldl step system

/-- From every state with an invariant that actions keep, some order leads to a state with
the invariant that nobody can leave. -/
theorem acts_until_stuck {threads : Finset Nat} {Good : System machine → Prop}
    (keeps : ∀ before after thread, Good before → before.Acts after thread → Good after)
    (good : Good system) (within : system.Within threads) :
    ∃ order, Good (system.runIn order) ∧ ¬∃ thread after, (system.runIn order).Acts after thread := by
  induction system using (advances_well_founded threads).induction with
  | _ system induction =>
      by_cases stuck : ∃ thread after, system.Acts after thread
      · obtain ⟨thread, after, acts⟩ := stuck
        obtain ⟨order, last⟩ := induction after ⟨within, thread, acts⟩ (keeps _ _ _ good acts)
          (acts.within within)
        refine ⟨thread :: order, ?_⟩
        rw [runIn, List.foldl_cons, ← acts.step]
        exact last
      · exact ⟨[], good, stuck⟩

/-- What is running comes to its end. A thread panics in a broken system only. -/
structure RunsOut (Broken : System machine → Prop) (system : System machine) : Prop where
  intact : ∀ thread, system.programs thread = .panic → Broken system
  /-- While a thread has something left to do, some thread can act. -/
  lively : ∀ thread, (system.programs thread).ended = false →
    ∃ other after, system.Acts after other
  /-- The threads cannot act for ever. -/
  bounded : ¬∃ states : Nat → System machine, states 0 = system ∧
    ∀ count, ∃ thread, (states count).Acts (states (count + 1)) thread
  /-- In some order all threads finish, or panic in a broken system. -/
  finishes : ∃ order, ∀ thread, ((system.runIn order).programs thread).finished = true ∨
    (system.runIn order).programs thread = .panic ∧ Broken (system.runIn order)

theorem runs_out {threads : Finset Nat} {Good Broken : System machine → Prop}
    (keeps : ∀ before after thread, Good before → before.Acts after thread → Good after)
    (intact : ∀ system, Good system → ∀ thread, system.programs thread = .panic → Broken system)
    (lively : ∀ system, Good system → ∀ thread,
      (system.programs thread).ended = false → ∃ other after, system.Acts after other)
    (good : Good system) (within : system.Within threads) : system.RunsOut Broken := by
  refine ⟨intact system good, lively system good, ?_, ?_⟩
  · rintro ⟨states, first, acts⟩
    exact no_endless_run states (by rw [first]; exact within) acts
  · obtain ⟨order, last, stuck⟩ := acts_until_stuck keeps good within
    refine ⟨order, fun thread => ?_⟩
    cases program : (system.runIn order).programs thread with
    | done result => exact Or.inl rfl
    | panic => exact Or.inr ⟨rfl, intact _ last thread program⟩
    | act action next => exact absurd (lively _ last thread (by rw [program]; rfl)) stuck

end System

end PulseMap
