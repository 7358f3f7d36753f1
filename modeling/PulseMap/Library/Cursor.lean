import Mathlib.Data.List.Basic

/-!
Cursors that are called until they return nothing. `remaining` is the measure that makes
the whole iteration terminate; `Spells` relates a cursor to the items it has still to
yield by what a single call does.
-/

namespace PulseMap

/-- An outer `none` of `next` is a failure of the call. -/
structure Cursor (State Item : Type) where
  next : State → Option (Option Item × State)
  remaining : State → Nat
  advances : ∀ {state item after}, next state = some (some item, after) →
    remaining after < remaining state

namespace Cursor

variable {State Item : Type} (cursor : Cursor State Item)

def toList (state : State) : Option (List Item) :=
  match _found : cursor.next state with
  | none => none
  | some (none, _) => some []
  | some (some item, after) => (toList after).map (item :: ·)
termination_by cursor.remaining state
decreasing_by exact cursor.advances ‹_›

/-- One call returns the head of the items that are left and leaves their tail. -/
def Spells (left : State → List Item) (Valid : State → Prop) : Prop :=
  ∀ state, Valid state →
    (left state = [] ∧ ∃ after, cursor.next state = some (none, after)) ∨
    ∃ item after, cursor.next state = some (some item, after) ∧ Valid after ∧
      left state = item :: left after

variable {cursor} {left : State → List Item} {Valid : State → Prop}

theorem to_list_stop {state after : State} (ended : cursor.next state = some (none, after)) :
    cursor.toList state = some [] := by
  rw [toList]
  split
  · next panicked => rw [panicked] at ended; cases ended
  · rfl
  · next found => rw [found] at ended; cases ended

theorem to_list_step {state after : State} {item : Item}
    (found : cursor.next state = some (some item, after)) :
    cursor.toList state = (cursor.toList after).map (item :: ·) := by
  rw [toList]
  split
  · next panicked => rw [panicked] at found; cases found
  · next ended => rw [ended] at found; cases found
  · next again =>
      rw [again] at found
      cases found
      rfl

theorem to_list_spells (spells : cursor.Spells left Valid) {state : State} (valid : Valid state) :
    cursor.toList state = some (left state) := by
  generalize items : left state = list
  induction list generalizing state with
  | nil =>
      rcases spells state valid with ⟨_, _, ended⟩ | ⟨_, _, _, _, more⟩
      · exact to_list_stop ended
      · rw [items] at more
        cases more
  | cons item rest induction =>
      rcases spells state valid with ⟨none, _, _⟩ | ⟨head, after, found, kept, more⟩
      · rw [items] at none
        cases none
      · rw [items] at more
        obtain ⟨rfl, tail⟩ := List.cons.inj more
        rw [to_list_step found, induction kept tail.symm]
        rfl

end Cursor

end PulseMap
