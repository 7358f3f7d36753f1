import Mathlib.Data.List.Basic

/-!
A first-in first-out queue with a fixed capacity. Its consumer hands items to a callback
that carries a state and may abort; the item the callback aborted on is gone like those
before it.
-/

namespace PulseMap

structure BoundedQueue (α : Type) (capacity : Nat) where
  items : List α
  bounded : items.length ≤ capacity

namespace BoundedQueue

variable {α σ : Type} {capacity : Nat}

theorem items_injective {left right : BoundedQueue α capacity} (same : left.items = right.items) :
    left = right := by
  cases left
  cases right
  simpa using same

def empty : BoundedQueue α capacity := ⟨[], Nat.zero_le _⟩

/-- A full queue refuses the item. -/
def push (self : BoundedQueue α capacity) (item : α) : Bool × BoundedQueue α capacity :=
  if room : self.items.length < capacity then
    (true, ⟨self.items ++ [item], by
      rw [List.length_append, List.length_singleton]
      exact room⟩)
  else (false, self)

theorem push_room {queue : BoundedQueue α capacity} (room : queue.items.length < capacity)
    {item : α} : queue.push item = (true, ⟨queue.items ++ [item], by
      rw [List.length_append, List.length_singleton]
      exact room⟩) :=
  dif_pos room

theorem push_full {queue : BoundedQueue α capacity} (full : ¬ queue.items.length < capacity)
    {item : α} : queue.push item = (false, queue) := dif_neg full

/-- The outcome of a callback on a list of items, and the items it did not reach. -/
def feed (callback : σ → α → Except σ σ) : List α → σ → Except σ σ × List α
  | [], world => (.ok world, [])
  | item :: items, world =>
      match callback world item with
      | .error world => (.error world, items)
      | .ok world => feed callback items world

theorem feed_length (callback : σ → α → Except σ σ) (items : List α) (world : σ) :
    (feed callback items world).2.length ≤ items.length := by
  induction items generalizing world with
  | nil => exact Nat.le_refl _
  | cons item items induction =>
      rw [feed]
      split
      · exact Nat.le_succ _
      · exact Nat.le_succ_of_le (induction _)

/-- The oldest items, at most `budget` of them, go to the callback. -/
def drain (self : BoundedQueue α capacity) (callback : σ → α → Except σ σ) (budget : Nat)
    (world : σ) : Except σ σ × BoundedQueue α capacity :=
  ((feed callback (self.items.take budget) world).1,
    ⟨(feed callback (self.items.take budget) world).2 ++ self.items.drop budget, by
      have bounded := self.bounded
      have reached := feed_length callback (self.items.take budget) world
      rw [List.length_take] at reached
      rw [List.length_append, List.length_drop]
      omega⟩)

variable (queue : BoundedQueue α capacity) (callback : σ → α → Except σ σ)

/-! ### The consumer one item at a time -/

theorem drain_zero (world : σ) : queue.drain callback 0 world = (.ok world, queue) := by
  refine Prod.ext ?_ (items_injective ?_)
  · simp [drain, feed]
  · simp [drain, feed]

theorem drain_nil (drained : queue.items = []) (budget : Nat) (world : σ) :
    queue.drain callback budget world = (.ok world, queue) := by
  refine Prod.ext ?_ (items_injective ?_)
  · simp [drain, feed, drained]
  · simp [drain, feed, drained]

variable {queue}

theorem drain_succ {later : BoundedQueue α capacity} {item : α}
    (first : queue.items = item :: later.items) (budget : Nat) (world : σ) :
    queue.drain callback (budget + 1) world =
      match callback world item with
      | .error world => (.error world, later)
      | .ok world => later.drain callback budget world := by
  refine Prod.ext ?_ (items_injective ?_)
  · cases called : callback world item <;> simp [drain, feed, first, called]
  · cases called : callback world item <;> simp [drain, feed, first, called]

/-! ### A callback that does not abort -/

theorem feed_total {callback : σ → α → Except σ σ} {next : σ → α → σ}
    (total : ∀ world item, callback world item = .ok (next world item)) (items : List α)
    (world : σ) : feed callback items world = (.ok (items.foldl next world), []) := by
  induction items generalizing world with
  | nil => rfl
  | cons item items induction =>
      rw [feed, total]
      exact induction _

/-- It sees exactly the oldest items, in their order, and these are what is removed. -/
theorem drain_total {callback : σ → α → Except σ σ} {next : σ → α → σ}
    (total : ∀ world item, callback world item = .ok (next world item)) (budget : Nat) (world : σ) :
    (queue.drain callback budget world).1 = .ok ((queue.items.take budget).foldl next world) ∧
      (queue.drain callback budget world).2.items = queue.items.drop budget := by
  simp [drain, feed_total total]

end BoundedQueue

end PulseMap
