import PulseMap.Sync.RehashSpec

/-!
The history of the concurrent map as a sequential one. `bindings` replays it on an
abstract map; a history is legal when every read and every removal answers what the
replay of the entries before it holds, and an insert displaces only a stored key.
-/

namespace PulseMap

/-- The abstract state: the value each key is bound to. -/
abbrev Bindings := Bytes → Option Bytes

namespace SyncEvent

def apply (state : Bindings) : SyncEvent → Bindings
  | insert key value none => Function.update state key (some value)
  | insert key value (some victim) =>
      Function.update (Function.update state victim none) key (some value)
  | remove key true => Function.update state key none
  | remove _ false => state
  | read _ _ => state
  | resize => state

/-- What the event says agrees with the state it happens in. -/
def Legal (state : Bindings) : SyncEvent → Prop
  | insert _ _ none => True
  | insert key _ (some victim) => victim ≠ key ∧ (state victim).isSome ∧ state key = none
  | read _ none => True
  | read key (some value) => state key = some value
  | remove key found => found = true ↔ (state key).isSome
  | resize => True

/-- The event ends the binding of a key: it removes it or displaces it. -/
def Ends (key : Bytes) : SyncEvent → Prop
  | remove name found => name = key ∧ found = true
  | insert _ _ victim => victim = some key
  | _ => False

def Inserts (key : Bytes) : SyncEvent → Prop
  | insert name _ _ => name = key
  | _ => False

end SyncEvent

def bindings (history : List HistoryEntry) : Bindings :=
  history.foldl (fun state entry => entry.event.apply state) fun _ => none

theorem bindings_append (history : List HistoryEntry) (entry : HistoryEntry) :
    bindings (history ++ [entry]) = entry.event.apply (bindings history) := by
  simp [bindings]

def LegalHistory (history : List HistoryEntry) : Prop :=
  ∀ past entry future, history = past ++ entry :: future → entry.event.Legal (bindings past)

theorem legal_nil : LegalHistory [] := by
  intro past entry future split
  simp at split

theorem legal_append {history : List HistoryEntry} {entry : HistoryEntry}
    (legal : LegalHistory history) (last : entry.event.Legal (bindings history)) :
    LegalHistory (history ++ [entry]) := by
  intro past other future split
  rcases List.eq_nil_or_concat future with rfl | ⟨front, back, rfl⟩
  · obtain ⟨rfl, rfl⟩ := List.append_singleton_inj.mp split
    exact last
  · rw [List.concat_eq_append, ← List.cons_append, ← List.append_assoc] at split
    obtain ⟨rfl, _⟩ := List.append_singleton_inj.mp split
    exact legal past other front rfl

/-- A bound key was inserted with that value, and neither rebound nor ended since. -/
theorem bound_since {history : List HistoryEntry} {key value : Bytes}
    (bound : bindings history key = some value) :
    ∃ past entry future victim, history = past ++ entry :: future ∧
      entry.event = .insert key value victim ∧
      ∀ later ∈ future, ¬ later.event.Inserts key ∧ ¬ later.event.Ends key := by
  induction history using List.reverseRecOn with
  | nil => simp [bindings] at bound
  | append_singleton history last induction =>
      rw [bindings_append] at bound
      -- Either the last event bound the key, or the key was bound before and it is untouched.
      by_cases inserts : last.event.Inserts key
      · cases event : last.event with
        | insert name text victim =>
            rw [event] at inserts bound
            have sameKey : name = key := inserts
            subst sameKey
            have sameValue : text = value := by
              cases victim <;> simpa [SyncEvent.apply] using bound
            subst sameValue
            exact ⟨history, last, [], victim, rfl, event, by simp⟩
        | read name found => rw [event] at inserts; exact inserts.elim
        | remove name found => rw [event] at inserts; exact inserts.elim
        | resize => rw [event] at inserts; exact inserts.elim
      · have untouched : ¬ last.event.Ends key ∧ bindings history key = some value := by
          cases event : last.event with
          | insert name text victim =>
              rw [event] at inserts bound
              have different : key ≠ name := fun same => inserts same.symm
              cases victim with
              | none => exact ⟨by simp [SyncEvent.Ends], by simpa [SyncEvent.apply, different] using bound⟩
              | some lost =>
                  by_cases same : key = lost
                  · subst same
                    simp [SyncEvent.apply, different] at bound
                  · exact ⟨by simpa [SyncEvent.Ends] using Ne.symm same,
                      by simpa [SyncEvent.apply, different, same] using bound⟩
          | read name found =>
              rw [event] at bound
              exact ⟨by simp [SyncEvent.Ends], bound⟩
          | remove name found =>
              rw [event] at bound
              cases found with
              | false => exact ⟨by simp [SyncEvent.Ends], bound⟩
              | true =>
                  by_cases same : key = name
                  · simp [SyncEvent.apply, same] at bound
                  · exact ⟨by simpa [SyncEvent.Ends] using Ne.symm same,
                      by simpa [SyncEvent.apply, same] using bound⟩
          | resize =>
              rw [event] at bound
              exact ⟨by simp [SyncEvent.Ends], bound⟩
        obtain ⟨past, entry, future, victim, split, event, since⟩ := induction untouched.2
        refine ⟨past, entry, future ++ [last], victim, by simp [split], event, ?_⟩
        intro later member
        rcases List.mem_append.mp member with old | new
        · exact since later old
        · rw [List.mem_singleton.mp new]
          exact ⟨inserts, untouched.1⟩

/-! ### The content of a layout and the history -/

namespace Layout

variable {config : SyncConfig} {layout : Layout} {transit : Transit} {history : List HistoryEntry}

def Reflects (layout : Layout) (history : List HistoryEntry) : Prop :=
  ∀ key value, (∃ position : Position, layout.content position.1 position.2 = some (key, value)) ↔
    bindings history key = some value

theorem rewrite_content (bucket : Nat) (slot : Fin 4) (written : Bucket)
    (entry : Option (Bytes × Bytes)) (position : Position) :
    (layout.rewrite bucket slot written entry).content position.1 position.2 =
      if position = (bucket, slot) then entry else layout.content position.1 position.2 := by
  obtain ⟨other, place⟩ := position
  by_cases sameBucket : other = bucket
  · subst sameBucket
    by_cases sameSlot : place = slot
    · subst sameSlot
      simp [rewrite]
    · simp [rewrite, sameSlot]
  · simp [rewrite, sameBucket]

section Reflects

variable {bucket : Nat} {slot : Fin 4} {key value : Bytes} {written : Bucket} {thread call : Nat}

/-- One slot is rewritten: the key it held, if any, is unbound, and the new key, if any,
is bound to its value. -/
theorem reflects_rewrite (invariant : layout.Invariant config transit)
    (reflects : layout.Reflects history) (last : HistoryEntry) (entry : Option (Bytes × Bytes))
    (bound : ∀ name text, entry = some (name, text) →
      last.event.apply (bindings history) name = some text ∧
        ∀ position other, position ≠ (bucket, slot) →
          layout.content position.1 position.2 ≠ some (name, other))
    (unbound : ∀ name text, layout.content bucket slot = some (name, text) →
      (∀ other, entry ≠ some (name, other)) → last.event.apply (bindings history) name = none)
    (kept : ∀ name, (∀ text, entry ≠ some (name, text)) →
      (∀ text, layout.content bucket slot ≠ some (name, text)) →
      last.event.apply (bindings history) name = bindings history name) :
    (layout.rewrite bucket slot written entry).Reflects (history ++ [last]) := by
  intro name text
  rw [bindings_append]
  simp only [rewrite_content]
  by_cases isNew : ∃ other, entry = some (name, other)
  · obtain ⟨other, new⟩ := isNew
    obtain ⟨applied, elsewhere⟩ := bound name other new
    rw [applied]
    constructor
    · rintro ⟨position, here⟩
      split_ifs at here with moved
      · rw [new] at here
        exact congrArg some (Prod.mk.inj (Option.some.inj here)).2
      · exact absurd here (elsewhere position text moved)
    · intro same
      exact ⟨(bucket, slot), by rw [if_pos rfl, new, Option.some.inj same]⟩
  · have notNew : ∀ other, entry ≠ some (name, other) := fun other same => isNew ⟨other, same⟩
    by_cases wasHeld : ∃ other, layout.content bucket slot = some (name, other)
    · obtain ⟨other, held⟩ := wasHeld
      rw [unbound name other held notNew]
      constructor
      · rintro ⟨position, here⟩
        split_ifs at here with moved
        · exact absurd here (notNew text)
        · have heldAt : layout.content (bucket, slot).1 (bucket, slot).2 = some (name, other) := held
          exact absurd (position_unique invariant here heldAt) moved
      · intro none
        simp at none
    · have notHeld : ∀ other, layout.content bucket slot ≠ some (name, other) :=
        fun other same => wasHeld ⟨other, same⟩
      rw [kept name notNew notHeld, ← reflects name text]
      constructor
      · rintro ⟨position, here⟩
        split_ifs at here with moved
        · exact absurd here (notNew text)
        · exact ⟨position, here⟩
      · rintro ⟨position, here⟩
        refine ⟨position, ?_⟩
        rw [if_neg, here]
        rintro rfl
        exact notHeld text here

theorem reflects_update (invariant : layout.Invariant config transit)
    (reflects : layout.Reflects history) {old : Bytes}
    (held : layout.content bucket slot = some (key, old)) :
    (layout.rewrite bucket slot written (some (key, value))).Reflects
      (history ++ [⟨thread, call, .insert key value none⟩]) := by
  apply reflects_rewrite invariant reflects
  · intro name text same
    obtain ⟨rfl, rfl⟩ := Prod.mk.inj (Option.some.inj same)
    refine ⟨by simp [SyncEvent.apply], ?_⟩
    intro position other different here
    have heldAt : layout.content (bucket, slot).1 (bucket, slot).2 = some (key, old) := held
    exact different (position_unique invariant here heldAt)
  · intro name text here notNew
    rw [held] at here
    obtain ⟨rfl, rfl⟩ := Prod.mk.inj (Option.some.inj here)
    exact absurd rfl (notNew value)
  · intro name notNew _
    have different : name ≠ key := fun same => notNew value (by rw [same])
    simp [SyncEvent.apply, different]

theorem reflects_place (invariant : layout.Invariant config transit)
    (reflects : layout.Reflects history)
    (absent : ∀ (position : Position) other,
      layout.content position.1 position.2 ≠ some (key, other)) :
    (layout.rewrite bucket slot written (some (key, value))).Reflects
      (history ++ [⟨thread, call, .insert key value ((layout.content bucket slot).map Prod.fst)⟩]) := by
  apply reflects_rewrite invariant reflects
  · intro name text same
    obtain ⟨rfl, rfl⟩ := Prod.mk.inj (Option.some.inj same)
    refine ⟨?_, fun position other _ => absent position other⟩
    cases layout.content bucket slot <;> simp [SyncEvent.apply]
  · intro name text here notNew
    have different : name ≠ key := fun same => notNew value (by rw [same])
    simp [SyncEvent.apply, here, different]
  · intro name notNew notHeld
    have different : name ≠ key := fun same => notNew value (by rw [same])
    cases content : layout.content bucket slot with
    | none => simp [SyncEvent.apply, different]
    | some pair =>
        have other : name ≠ pair.1 := fun same => notHeld pair.2 (by rw [content, same])
        simp [SyncEvent.apply, different, other]

theorem reflects_erase (invariant : layout.Invariant config transit)
    (reflects : layout.Reflects history) {old : Bytes}
    (held : layout.content bucket slot = some (key, old)) :
    (layout.rewrite bucket slot written none).Reflects
      (history ++ [⟨thread, call, .remove key true⟩]) := by
  apply reflects_rewrite invariant reflects
  · intro name text same
    simp at same
  · intro name text here _
    rw [held] at here
    obtain ⟨rfl, rfl⟩ := Prod.mk.inj (Option.some.inj here)
    simp [SyncEvent.apply]
  · intro name _ notHeld
    have different : name ≠ key := fun same => notHeld old (by rw [held, same])
    simp [SyncEvent.apply, different]

theorem bindings_eq (invariant : layout.Invariant config transit) (reflects : layout.Reflects history)
    (home : config.bucketIndex (config.hash key).h1 layout.bucketMask = bucket) :
    bindings history key = (slotOf (layout.content bucket) key).bind fun slot =>
      (layout.content bucket slot).map Prod.snd := by
  cases found : slotOf (layout.content bucket) key with
  | some slot =>
      obtain ⟨text, held⟩ := slot_of_some found
      have bound := (reflects key text).mp ⟨(bucket, slot), held⟩
      simp [bound, held]
  | none =>
      cases bound : bindings history key with
      | none => rfl
      | some text =>
          obtain ⟨position, held⟩ := (reflects key text).mpr bound
          have here := invariant.home position.1 position.2 key text held
          rw [home] at here
          rw [← here] at held
          exact absurd held (slot_of_none found position.2 text)

theorem stored_iff_entries (invariant : layout.Invariant config still) :
    (∃ position : Position, layout.content position.1 position.2 = some (key, value)) ↔
      ∃ entry ∈ layout.entries, entry.keyBytes = key ∧ entry.valBytes = value := by
  constructor
  · rintro ⟨position, held⟩
    exact ⟨⟨key, value, layout.epochs (position.1 * 4 + position.2.val)⟩,
      (mem_entries invariant).mpr ⟨position, by simp [entryOf, held]⟩, rfl, rfl⟩
  · rintro ⟨entry, member, rfl, rfl⟩
    obtain ⟨position, found⟩ := (mem_entries invariant).mp member
    exact ⟨position, entry_of_content found⟩

theorem reflects_entries {other : Layout} (invariant : layout.Invariant config still)
    (otherInvariant : other.Invariant config still) (same : other.entries.Perm layout.entries)
    (reflects : layout.Reflects history) : other.Reflects history := by
  intro key value
  rw [← reflects key value, stored_iff_entries invariant, stored_iff_entries otherInvariant]
  constructor
  · rintro ⟨entry, member, held⟩
    exact ⟨entry, same.mem_iff.mp member, held⟩
  · rintro ⟨entry, member, held⟩
    exact ⟨entry, same.mem_iff.mpr member, held⟩

end Reflects

end Layout

end PulseMap
