import Mathlib.Data.List.Basic

/-!
Two runs of one machine that differ by silent calls. A relation between states that silent
calls keep on either side, and that every other call keeps with equal results, makes the
common calls of the two runs return the same. Where the relation does not survive a call,
the observation stops before it.
-/

namespace PulseMap.Unwinding

variable {State Op Result : Type} (step : State → Op → Option (Result × State))
  (stop : State → Op → Bool)

/-- The results of the calls marked as common, up to the first call that must stop. -/
def observe : State → List (Bool × Op) → Option (List Result × State)
  | state, [] => some ([], state)
  | state, (common, op) :: rest =>
      if stop state op then some ([], state)
      else do
        let (result, next) ← step state op
        let (later, last) ← observe next rest
        some (if common then result :: later else later, last)

/-- What a relation needs so that two runs related by it cannot be told apart. -/
structure Unwinds (Related : State → State → Prop) (Silent Allowed : Op → Prop) : Prop where
  symmetric : ∀ {left right}, Related left right → Related right left
  stops : ∀ {left right}, Related left right → ∀ op, stop left op = stop right op
  silent : ∀ {left right}, Related left right → ∀ op, Silent op →
    stop left op = false ∧ ∃ result next, step left op = some (result, next) ∧ Related next right
  common : ∀ {left right}, Related left right → ∀ op, Allowed op → stop left op = false →
    ∃ result next other, step left op = some (result, next) ∧ step right op = some (result, other) ∧
      Related next other

variable {step stop} {Related : State → State → Prop} {Silent Allowed : Op → Prop}

theorem observe_silent (unwinds : Unwinds step stop Related Silent Allowed)
    (extras rest : List (Bool × Op)) {left right : State} (related : Related left right)
    (silent : ∀ call ∈ extras, call.1 = false ∧ Silent call.2) :
    ∃ next, observe step stop left (extras ++ rest) = observe step stop next rest ∧
      Related next right := by
  induction extras generalizing left with
  | nil => exact ⟨left, rfl, related⟩
  | cons call extras induction =>
      obtain ⟨extra, quiet⟩ := silent call List.mem_cons_self
      obtain ⟨goes, result, next, stepped, kept⟩ := unwinds.silent related call.2 quiet
      obtain ⟨last, same, final⟩ := induction kept
        (fun other member => silent other (List.mem_cons_of_mem _ member))
      refine ⟨last, ?_, final⟩
      rw [List.cons_append, observe, if_neg (by rw [goes]; exact Bool.false_ne_true), stepped]
      simp only [extra, Option.bind_eq_bind, Option.bind_some, Bool.false_eq_true, if_false]
      rw [same]
      cases observe step stop last rest <;> rfl

theorem observe_agree (unwinds : Unwinds step stop Related Silent Allowed)
    (left right : List (Bool × Op)) {first second : State} (related : Related first second)
    (same : left.filter Prod.fst = right.filter Prod.fst)
    (silent : ∀ call ∈ left ++ right, call.1 = false → Silent call.2)
    (allowed : ∀ call ∈ left, call.1 = true → Allowed call.2) :
    ∃ results last final, observe step stop first left = some (results, last) ∧
      observe step stop second right = some (results, final) ∧ Related last final := by
  induction left generalizing first second right with
  | nil =>
      have extras : ∀ call ∈ right, call.1 = false ∧ Silent call.2 := by
        intro call member
        have extra : call.1 = false := by
          simpa using List.filter_eq_nil_iff.mp same.symm call member
        exact ⟨extra, silent call member extra⟩
      obtain ⟨final, passed, kept⟩ :=
        observe_silent unwinds right [] (unwinds.symmetric related) extras
      rw [List.append_nil] at passed
      exact ⟨[], first, final, rfl, passed, unwinds.symmetric kept⟩
  | cons call rest induction =>
      obtain ⟨common, op⟩ := call
      have restAllowed : ∀ call ∈ rest, call.1 = true → Allowed call.2 := fun other member =>
        allowed other (List.mem_cons_of_mem _ member)
      cases common with
      | false =>
          have quiet := silent (false, op) (by simp) rfl
          obtain ⟨next, passed, kept⟩ := observe_silent unwinds [(false, op)] rest related
            (fun call member => by rw [List.mem_singleton.mp member]; exact ⟨rfl, quiet⟩)
          obtain ⟨results, last, final, ran, other, agree⟩ := induction right kept
            (by simpa using same)
            (fun other member => silent other (List.mem_cons_of_mem _ member)) restAllowed
          exact ⟨results, last, final, passed.trans ran, other, agree⟩
      | true =>
          -- The other run reaches the same call after some silent ones.
          have head : right.filter Prod.fst = (true, op) :: rest.filter Prod.fst := by
            rw [← same]
            rfl
          obtain ⟨extras, tail, rfl, before, _, sameRest⟩ := List.filter_eq_cons_iff.mp head
          have quiet : ∀ call ∈ extras, call.1 = false ∧ Silent call.2 := by
            intro call member
            have extra : call.1 = false := by simpa using before call member
            exact ⟨extra, silent call (by simp [member]) extra⟩
          obtain ⟨middle, passed, kept⟩ := observe_silent unwinds extras ((true, op) :: tail)
            (unwinds.symmetric related) quiet
          have again := unwinds.symmetric kept
          rw [passed, observe, observe, ← unwinds.stops again op]
          cases stopped : stop first op with
          | true => exact ⟨[], first, middle, rfl, rfl, again⟩
          | false =>
              obtain ⟨result, next, other, stepped, matched, nextAgain⟩ :=
                unwinds.common again op (allowed (true, op) (by simp) rfl) stopped
              obtain ⟨results, last, final, ran, shown, agree⟩ := induction tail nextAgain
                sameRest.symm (fun call member => silent call (by
                  rcases List.mem_append.mp member with here | there
                  · simp [here]
                  · simp [there])) restAllowed
              refine ⟨result :: results, last, final, ?_, ?_, agree⟩
              · simp [stepped, ran]
              · simp [matched, shown]

end PulseMap.Unwinding
