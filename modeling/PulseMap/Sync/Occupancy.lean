import PulseMap.Sync.Tally

/-!
What a legal history has put into the map and taken out of it again. The inserts of keys
that were not stored are the stored keys, the displaced ones and the removed ones.
-/

namespace PulseMap

open Finset

namespace SyncEvent

def keep (keys : Finset Bytes) : SyncEvent → Finset Bytes
  | insert key _ none => Insert.insert key keys
  | insert key _ (some victim) => Insert.insert key (keys.erase victim)
  | remove key true => keys.erase key
  | remove _ false => keys
  | read _ _ => keys
  | resize => keys

def places (state : Bindings) : SyncEvent → Bool
  | insert key _ _ => (state key).isNone
  | _ => false

def displaces : SyncEvent → Bool
  | insert _ _ (some _) => true
  | _ => false

def removes : SyncEvent → Bool
  | remove _ true => true
  | _ => false

end SyncEvent

def storedKeys (history : List HistoryEntry) : Finset Bytes :=
  history.foldl (fun keys entry => entry.event.keep keys) ∅

def placementsFrom (state : Bindings) : List HistoryEntry → Nat
  | [] => 0
  | entry :: rest =>
      (if entry.event.places state then 1 else 0) + placementsFrom (entry.event.apply state) rest

/-- The number of inserts that placed a key not already stored. -/
def placements (history : List HistoryEntry) : Nat := placementsFrom (fun _ => none) history

def evictions (history : List HistoryEntry) : Nat := history.countP fun entry => entry.event.displaces

def removals (history : List HistoryEntry) : Nat := history.countP fun entry => entry.event.removes

section History

variable {history : List HistoryEntry} {entry : HistoryEntry}

theorem stored_keys_append :
    storedKeys (history ++ [entry]) = entry.event.keep (storedKeys history) := by
  simp [storedKeys]

theorem placements_from_append (state : Bindings) :
    placementsFrom state (history ++ [entry]) = placementsFrom state history +
      if entry.event.places (history.foldl (fun state entry => entry.event.apply state) state)
      then 1 else 0 := by
  induction history generalizing state with
  | nil => exact Nat.add_comm _ _
  | cons first rest induction =>
      rw [List.cons_append, placementsFrom, placementsFrom, induction, List.foldl_cons]
      omega

theorem placements_append :
    placements (history ++ [entry]) =
      placements history + if entry.event.places (bindings history) then 1 else 0 :=
  placements_from_append fun _ => none

theorem evictions_append :
    evictions (history ++ [entry]) = evictions history + if entry.event.displaces then 1 else 0 := by
  simp [evictions, List.countP_append, List.countP_singleton]

theorem removals_append :
    removals (history ++ [entry]) = removals history + if entry.event.removes then 1 else 0 := by
  simp [removals, List.countP_append, List.countP_singleton]

theorem mem_stored_keys (key : Bytes) :
    key ∈ storedKeys history ↔ (bindings history key).isSome := by
  induction history using List.reverseRecOn with
  | nil => simp [storedKeys, bindings]
  | append_singleton history last induction =>
      rw [stored_keys_append, bindings_append]
      cases last.event with
      | insert name value victim =>
          cases victim with
          | none => by_cases same : key = name <;> simp [SyncEvent.keep, SyncEvent.apply, same, induction]
          | some lost =>
              by_cases same : key = name
              · simp [SyncEvent.keep, SyncEvent.apply, same]
              · by_cases gone : key = lost
                · subst gone
                  simp [SyncEvent.keep, SyncEvent.apply, same]
                · simp [SyncEvent.keep, SyncEvent.apply, same, gone, induction]
      | read name found => exact induction
      | remove name found =>
          cases found with
          | false => exact induction
          | true => by_cases same : key = name <;> simp [SyncEvent.keep, SyncEvent.apply, same, induction]
      | resize => exact induction

theorem keep_card {keys : Finset Bytes} {state : Bindings} {event : SyncEvent}
    (keeps : ∀ key, key ∈ keys ↔ (state key).isSome) (legal : event.Legal state) :
    (event.keep keys).card + (if event.displaces then 1 else 0) +
        (if event.removes then 1 else 0) =
      keys.card + if event.places state then 1 else 0 := by
  cases event with
  | insert key value victim =>
      cases victim with
      | none =>
          by_cases stored : key ∈ keys
          · have bound := (keeps key).mp stored
            simp [SyncEvent.keep, SyncEvent.displaces, SyncEvent.removes, SyncEvent.places, stored,
              Option.isNone_eq_false_iff.mpr bound]
          · have free : state key = none := by
              simpa [keeps key] using stored
            simp [SyncEvent.keep, SyncEvent.displaces, SyncEvent.removes, SyncEvent.places, stored,
              free]
      | some lost =>
          obtain ⟨different, bound, free⟩ := legal
          have member : lost ∈ keys := (keeps lost).mpr bound
          have absent : key ∉ keys.erase lost := by
            intro kept
            have stored := (keeps key).mp (mem_of_mem_erase kept)
            rw [free] at stored
            cases stored
          have fewer := card_erase_add_one member
          simp only [SyncEvent.keep, SyncEvent.displaces, SyncEvent.removes, SyncEvent.places, free,
            card_insert_of_notMem absent]
          simp
          omega
  | read key found => rfl
  | remove key found =>
      cases found with
      | false => rfl
      | true =>
          have member : key ∈ keys := (keeps key).mpr (legal.mp rfl)
          have fewer := card_erase_add_one member
          simpa [SyncEvent.keep, SyncEvent.displaces, SyncEvent.removes, SyncEvent.places] using fewer
  | resize => rfl

theorem legal_before (legal : LegalHistory (history ++ [entry])) : LegalHistory history := by
  intro past middle future split
  apply legal past middle (future ++ [entry])
  rw [split]
  simp

/-- Every key that was placed is stored, displaced or removed. -/
theorem stored_keys_card (legal : LegalHistory history) :
    (storedKeys history).card + evictions history + removals history = placements history := by
  induction history using List.reverseRecOn with
  | nil => rfl
  | append_singleton history last induction =>
      have before := induction (legal_before legal)
      have now := keep_card mem_stored_keys (legal history last [] rfl)
      rw [stored_keys_append, evictions_append, removals_append, placements_append]
      omega

end History

namespace Layout

variable {config : SyncConfig} {layout : Layout} {history : List HistoryEntry}

theorem full_slots_stored (invariant : layout.Invariant config still)
    (reflects : layout.Reflects history) : layout.fullSlots = (storedKeys history).card := by
  have listed : storedKeys history = (layout.entries.map EntryData.keyBytes).toFinset := by
    ext key
    rw [mem_stored_keys, Option.isSome_iff_exists, List.mem_toFinset, List.mem_map]
    constructor
    · rintro ⟨value, bound⟩
      obtain ⟨entry, member, same, _⟩ :=
        (stored_iff_entries invariant).mp ((reflects key value).mpr bound)
      exact ⟨entry, member, same⟩
    · rintro ⟨entry, member, same⟩
      exact ⟨entry.valBytes, (reflects key entry.valBytes).mp
        ((stored_iff_entries invariant).mpr ⟨entry, member, same, rfl⟩)⟩
  rw [listed, List.toFinset_card_of_nodup (entries_keys_nodup invariant), List.length_map,
    entries_length invariant]

end Layout

end PulseMap
