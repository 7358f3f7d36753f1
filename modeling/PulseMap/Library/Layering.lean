import PulseMap.Library.Program

/-!
Two levels of one system: a fine machine whose states project to those of a coarse one. An
action of the coarse machine has its fine counterpart; the other fine actions stand
aside: they leave the projection as it was. A fine program refines a coarse one when it
is that program with actions aside put in between, and every schedule of fine programs
projects to a schedule of the coarse ones.
-/

namespace PulseMap

structure Layering (fine coarse : Machine) where
  project : fine.Shared → coarse.Shared
  lift : coarse.Action → fine.Action
  answer : (action : coarse.Action) → fine.Response (lift action) → coarse.Response action
  Aside : fine.Action → Prop
  performs : ∀ {thread action shared response after},
    fine.perform thread (lift action) shared = some (response, after) →
    coarse.perform thread action (project shared) = some (answer action response, project after)
  aside : ∀ {thread action shared response after}, Aside action →
    fine.perform thread action shared = some (response, after) → project after = project shared

namespace Layering

variable {fine coarse : Machine} (layering : Layering fine coarse) {Result Next : Type}

/-- The coarse program with actions aside put in between. -/
inductive Refines : Program fine Result → Program coarse Result → Prop
  | done (result : Result) : Refines (.done result) (.done result)
  | panic : Refines .panic .panic
  | act (action : coarse.Action) {next : fine.Response (layering.lift action) → Program fine Result}
      {last : coarse.Response action → Program coarse Result}
      (rest : ∀ response, Refines (next response) (last (layering.answer action response))) :
      Refines (.act (layering.lift action) next) (.act action last)
  | aside {action : fine.Action} {next : fine.Response action → Program fine Result}
      {program : Program coarse Result} (aside : layering.Aside action)
      (rest : ∀ response, Refines (next response) program) : Refines (.act action next) program

inductive Idles : Program fine Result → Prop
  | done (result : Result) : Idles (.done result)
  | act {action : fine.Action} {next : fine.Response action → Program fine Result}
      (aside : layering.Aside action) (rest : ∀ response, Idles (next response)) :
      Idles (.act action next)

variable {layering}

theorem idles_bind {program : Program fine Result} {next : Result → Program fine Next}
    (idles : layering.Idles program) (rest : ∀ result, layering.Idles (next result)) :
    layering.Idles (program >>= next) := by
  induction idles with
  | done result => exact rest result
  | act aside _ induction => exact .act aside induction

theorem refines_idle {first : Program fine Next} {next : Next → Program fine Result}
    {program : Program coarse Result} (idles : layering.Idles first)
    (rest : ∀ result, layering.Refines (next result) program) :
    layering.Refines (first >>= next) program := by
  induction idles with
  | done result => exact rest result
  | act aside _ induction => exact .aside aside induction

/-! ### Systems -/

/-- The fine system projects to the coarse one, thread by thread. -/
structure Mirrors (layering : Layering fine coarse) (system : System fine) (image : System coarse) :
    Prop where
  shared : layering.project system.shared = image.shared
  programs : ∀ thread, layering.Refines (system.programs thread) (image.programs thread)

variable {system : System fine} {image : System coarse}

theorem refines_update {fines : Nat → Program fine Unit} {coarses : Nat → Program coarse Unit}
    (all : ∀ thread, layering.Refines (fines thread) (coarses thread)) {rest : Program fine Unit}
    {left : Program coarse Unit} (refines : layering.Refines rest left) (thread other : Nat) :
    layering.Refines (Function.update fines thread rest other) (Function.update coarses thread left other) := by
  by_cases same : other = thread
  · rw [same, Function.update_self, Function.update_self]
    exact refines
  · rw [Function.update_of_ne same, Function.update_of_ne same]
    exact all other

theorem mirrors_step (mirrors : layering.Mirrors system image) (thread : Nat) :
    layering.Mirrors (system.step thread) image ∨
      layering.Mirrors (system.step thread) (image.step thread) := by
  have own := mirrors.programs thread
  cases program : system.programs thread with
  | done result => exact Or.inl (by rw [System.step, program]; exact mirrors)
  | panic => exact Or.inl (by rw [System.step, program]; exact mirrors)
  | act action next =>
      cases answered : fine.perform thread action system.shared with
      | none => exact Or.inl (by rw [System.step_blocked program answered]; exact mirrors)
      | some outcome =>
          obtain ⟨response, after⟩ := outcome
          rw [System.step_act program answered]
          rw [program] at own
          generalize standing : image.programs thread = left at own
          cases own with
          | act action rest =>
              have performed := layering.performs answered
              rw [mirrors.shared] at performed
              rw [System.step_act standing performed]
              exact Or.inr ⟨rfl, refines_update mirrors.programs (rest response) thread⟩
          | aside aside rest =>
              refine Or.inl ⟨(layering.aside aside answered).trans mirrors.shared, ?_⟩
              have kept := refines_update mirrors.programs (rest response) thread
              rwa [← standing, Function.update_eq_self] at kept

section Runs

variable {Call : Type} {body : Call → Program fine Unit} {image_body : Call → Program coarse Unit}

theorem mirrors_call (mirrors : layering.Mirrors system image)
    (bodies : ∀ call, layering.Refines (body call) (image_body call)) (thread : Nat) (call : Call) :
    layering.Mirrors (system.move body (.call thread call)) image ∨
      layering.Mirrors (system.move body (.call thread call)) (image.move image_body (.call thread call)) := by
  rw [System.move]
  split_ifs with finished
  · right
    have own := mirrors.programs thread
    generalize standing : image.programs thread = left at own
    cases program : system.programs thread with
    | done result =>
        rw [program] at own
        cases own with
        | done result =>
            rw [System.move_call image_body standing]
            exact ⟨mirrors.shared, refines_update mirrors.programs (bodies call) thread⟩
    | panic => simp [program, Program.finished] at finished
    | act action next => simp [program, Program.finished] at finished
  · exact Or.inl mirrors

/-- Every fine schedule projects to a part of itself on the coarse level. -/
theorem mirrors_run (bodies : ∀ call, layering.Refines (body call) (image_body call))
    (mirrors : layering.Mirrors system image) (moves : List (Move Call)) :
    ∃ schedule : List (Move Call), schedule.Sublist moves ∧
      layering.Mirrors (system.run body moves) (image.run image_body schedule) := by
  induction moves generalizing system image with
  | nil => exact ⟨[], .slnil, mirrors⟩
  | cons move rest induction =>
      have moved : layering.Mirrors (system.move body move) image ∨
          layering.Mirrors (system.move body move) (image.move image_body move) := by
        cases move with
        | call thread call => exact mirrors_call mirrors bodies thread call
        | step thread => exact mirrors_step mirrors thread
      rcases moved with still | moved
      · obtain ⟨schedule, part, last⟩ := induction still
        exact ⟨schedule, part.cons move, last⟩
      · obtain ⟨schedule, part, last⟩ := induction moved
        exact ⟨move :: schedule, part.cons_cons move, last⟩

end Runs

end Layering

end PulseMap
