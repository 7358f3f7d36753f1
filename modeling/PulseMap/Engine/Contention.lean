import PulseMap.Engine.Packing
import PulseMap.Library.RetryLoop

/-!
`on_access` under contention: each call is a retry loop of a load and a weak
compare-exchange on one shared word. The calls take effect one after the other, and what
they leave is counted from the order of their successful exchanges.
-/

namespace PulseMap

namespace SlotFields

theorem frequency_small (self : SlotFields) : self.frequency ≤ 15 := by
  have bound := self.priority.isLt
  rw [frequency]
  omega

theorem recency_small (self : SlotFields) : self.recency ≤ 7 := by
  rw [recency]
  omega

theorem with_priority_counts (self : SlotFields) {frequency recency : Nat} (few : frequency ≤ 15)
    (recent : recency ≤ 7) :
    (self.withPriority frequency recency).frequency = frequency ∧
      (self.withPriority frequency recency).recency = recency := by
  have value : (self.withPriority frequency recency).priority.toNat = 8 * frequency + recency := by
    rw [withPriority, BitVec.toNat_ofNat, Nat.mod_eq_of_lt (by omega)]
  rw [SlotFields.frequency, SlotFields.recency, value]
  omega

theorem accessed_counts (self : SlotFields) :
    self.accessed.frequency = min 15 (self.frequency + 1) ∧ self.accessed.recency = 7 :=
  self.with_priority_counts (Nat.min_le_left ..) le_rfl

theorem aged_counts (self : SlotFields) :
    self.aged.frequency = self.frequency ∧ self.aged.recency = self.recency - 1 :=
  self.with_priority_counts self.frequency_small ((Nat.sub_le ..).trans self.recency_small)

end SlotFields

namespace MetaWord

def accessAll (self : MetaWord) (slots : List (Fin 4)) : MetaWord := slots.foldl onAccess self

/-- The calls of `on_access` on one word, in any interleaving of their atomic actions. -/
def accessRun (self : MetaWord) (moves : List (RetryLoop.Move (Fin 4))) :
    RetryLoop.State MetaWord (Fin 4) :=
  (RetryLoop.State.new self).run (fun slot word => word.onAccess slot) moves

theorem access_all_append (self : MetaWord) (slots : List (Fin 4)) (slot : Fin 4) :
    self.accessAll (slots ++ [slot]) = (self.accessAll slots).onAccess slot :=
  List.foldl_append ..

theorem fields_on_access_still (self : MetaWord) (slot other : Fin 4) :
    ((self.onAccess slot).fields other).state = (self.fields other).state ∧
      ((self.onAccess slot).fields other).h2 = (self.fields other).h2 := by
  rw [fields_on_access]
  split_ifs with same
  · rw [same]
    exact ⟨rfl, rfl⟩
  · exact ⟨rfl, rfl⟩
  · exact ⟨rfl, rfl⟩

theorem access_all_still (self : MetaWord) (slots : List (Fin 4)) (other : Fin 4) :
    ((self.accessAll slots).fields other).state = (self.fields other).state ∧
      ((self.accessAll slots).fields other).h2 = (self.fields other).h2 := by
  induction slots using List.reverseRecOn with
  | nil => exact ⟨rfl, rfl⟩
  | append_singleton slots slot induction =>
      obtain ⟨state, h2⟩ := fields_on_access_still (self.accessAll slots) slot other
      rw [access_all_append, state, h2]
      exact induction

theorem access_all_frequency (self : MetaWord) (slots : List (Fin 4)) (other : Fin 4) :
    ((self.accessAll slots).fields other).frequency =
      min 15 ((self.fields other).frequency + slots.count other) := by
  induction slots using List.reverseRecOn with
  | nil => exact (Nat.min_eq_right (self.fields other).frequency_small).symm
  | append_singleton slots slot induction =>
      rw [access_all_append, fields_on_access, List.count_append]
      by_cases same : other = slot
      · subst same
        rw [if_pos rfl, (SlotFields.accessed_counts _).1, induction, List.count_singleton_self]
        omega
      · rw [if_neg same, List.count_cons_of_ne (Ne.symm same), List.count_nil, Nat.add_zero, ← induction]
        split_ifs
        · exact (SlotFields.aged_counts _).1
        · rfl

def accessesSince (slots : List (Fin 4)) (slot : Fin 4) : Nat :=
  (slots.reverse.takeWhile (· ≠ slot)).length

theorem accesses_since_append (slots : List (Fin 4)) (slot last : Fin 4) :
    accessesSince (slots ++ [last]) slot = if last = slot then 0 else accessesSince slots slot + 1 := by
  rw [accessesSince, List.reverse_append, List.reverse_singleton, List.singleton_append]
  split_ifs with same
  · simp [same]
  · simp [same, accessesSince]

theorem access_all_recency (self : MetaWord) (slots : List (Fin 4)) (slot : Fin 4)
    (full : (self.fields slot).slotState = .full) :
    ((self.accessAll slots).fields slot).recency =
      if slot ∈ slots then 7 - accessesSince slots slot
      else (self.fields slot).recency - slots.length := by
  induction slots using List.reverseRecOn with
  | nil => rfl
  | append_singleton slots last induction =>
      have stillFull : ((self.accessAll slots).fields slot).slotState = .full := by
        rw [SlotFields.slotState, (self.access_all_still slots slot).1]
        exact full
      rw [access_all_append, fields_on_access, accesses_since_append]
      by_cases same : slot = last
      · subst same
        rw [if_pos rfl, if_pos rfl, (SlotFields.accessed_counts _).2,
          if_pos (List.mem_append_right _ (List.mem_singleton_self slot))]
      · rw [if_neg same, if_pos stillFull, (SlotFields.aged_counts _).2, induction,
          if_neg (Ne.symm same)]
        simp only [List.mem_append, List.mem_singleton, same, or_false, List.length_append,
          List.length_singleton]
        split_ifs <;> omega

end MetaWord

/-- What any number of interleaved calls leave in the word. -/
structure Contended (self : MetaWord) (last : RetryLoop.State MetaWord (Fin 4)) : Prop where
  /-- The calls, in the order of their successful exchanges, as if one after the other. -/
  serial : last.value = self.accessAll (last.committed.map Prod.snd)
  once : (last.committed.map Prod.fst).Nodup
  applied : ∀ id slot, (id, slot) ∈ last.committed ↔ last.calls id = some ⟨slot, .done⟩
  /-- With no call in progress, every call that has begun is applied. -/
  all : last.Quiet → last.committed.Perm last.begun
  still : ∀ slot, (last.value.fields slot).state = (self.fields slot).state ∧
    (last.value.fields slot).h2 = (self.fields slot).h2
  frequency : ∀ slot, (last.value.fields slot).frequency =
    min 15 ((self.fields slot).frequency + (last.committed.map Prod.snd).count slot)
  /-- The order does not matter for it. -/
  frequencyBegun : last.Quiet → ∀ slot, (last.value.fields slot).frequency =
    min 15 ((self.fields slot).frequency + (last.begun.map Prod.snd).count slot)
  recency : ∀ slot, (self.fields slot).slotState = .full → (last.value.fields slot).recency =
    if slot ∈ last.committed.map Prod.snd then
      7 - MetaWord.accessesSince (last.committed.map Prod.snd) slot
    else (self.fields slot).recency - last.committed.length
  /-- A call that the others leave undisturbed for three steps is done. -/
  returns : ∀ id slot phase, last.calls id = some ⟨slot, phase⟩ →
    (last.run (fun slot word => word.onAccess slot) (RetryLoop.State.alone id)).calls id =
      some ⟨slot, .done⟩
  /-- Some steps of the calls that have begun finish them all. -/
  finishes : ∃ future, (∀ move ∈ future, ∃ id, move = RetryLoop.Move.step id false) ∧
    (last.run (fun slot word => word.onAccess slot) future).Quiet ∧
    (last.run (fun slot word => word.onAccess slot) future).begun = last.begun

theorem on_access_serializes (self : MetaWord) (moves : List (RetryLoop.Move (Fin 4))) :
    Contended self (self.accessRun moves) := by
  have serial : (self.accessRun moves).Serial (fun slot word => word.onAccess slot) self :=
    RetryLoop.State.serial_run (RetryLoop.State.serial_new self) moves
  have value : (self.accessRun moves).value =
      self.accessAll ((self.accessRun moves).committed.map Prod.snd) := by
    rw [MetaWord.accessAll, List.foldl_map]
    exact serial.value
  have frequency : ∀ slot, ((self.accessRun moves).value.fields slot).frequency =
      min 15 ((self.fields slot).frequency +
        ((self.accessRun moves).committed.map Prod.snd).count slot) := by
    intro slot
    rw [value]
    exact self.access_all_frequency _ slot
  refine ⟨value, serial.committedOnce, serial.committed, RetryLoop.State.committed_perm serial, ?_,
    frequency, ?_, ?_, fun id slot phase here => RetryLoop.State.alone_done here,
    RetryLoop.State.finishes serial⟩
  · intro slot
    rw [value]
    exact self.access_all_still _ slot
  · intro quiet slot
    rw [frequency, (List.Perm.map Prod.snd (RetryLoop.State.committed_perm serial quiet)).count_eq]
  · intro slot full
    have recent := self.access_all_recency ((self.accessRun moves).committed.map Prod.snd) slot full
    rw [List.length_map] at recent
    rw [value]
    exact recent

/-- Two calls whose loads precede both exchanges: the second exchange is lost, fails once more
for no reason, and succeeds at its third attempt. -/
theorem on_access_serializes_two_calls :
    let self : MetaWord := ⟨0x5500000000000000⟩
    let moves : List (RetryLoop.Move (Fin 4)) := [.call 0 2, .call 1 0, .step 0 false,
      .step 1 false, .step 1 false, .step 0 false, .step 0 false, .step 0 true, .step 0 false,
      .step 0 false]
    (self.accessRun moves).Quiet ∧ (self.accessRun moves).committed = [(1, 0), (0, 2)] ∧
      (self.accessRun moves).begun = [(0, 2), (1, 0)] ∧ Contended self (self.accessRun moves) := by
  intro self moves
  have serial : (self.accessRun moves).Serial (fun slot word => word.onAccess slot) self :=
    RetryLoop.State.serial_run (RetryLoop.State.serial_new self) moves
  have committed : (self.accessRun moves).committed = [(1, 0), (0, 2)] := by decide +kernel
  have begun : (self.accessRun moves).begun = [(0, 2), (1, 0)] := by decide +kernel
  have quiet : (self.accessRun moves).Quiet := by
    apply RetryLoop.State.quiet_of_committed serial
    rw [committed, begun]
    decide
  exact ⟨quiet, committed, begun, on_access_serializes self moves⟩

end PulseMap
