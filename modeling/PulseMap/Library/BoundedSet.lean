import Mathlib.Data.Finset.Card
import Mathlib.Tactic.Common

/-!
Sets of bounded size into which elements come one after another. An element leaves only to
make room in a full set, so the set is at any time as large as what has come allows, and
has lost nothing while what has come fits into it.
-/

namespace PulseMap

variable {α : Type} {width : Nat} {held come : Finset α} {item : α}

inductive Admits [DecidableEq α] (width : Nat) (held : Finset α) (item : α) : Finset α → Prop
  | present (member : item ∈ held) : Admits width held item held
  | added (absent : item ∉ held) (room : held.card < width) :
      Admits width held item (insert item held)
  | replaced {victim : α} (absent : item ∉ held) (member : victim ∈ held)
      (full : held.card = width) : Admits width held item (insert item (held.erase victim))

/-- The set holds as many of the elements that have come as it has room for. -/
structure Saturates (width : Nat) (held come : Finset α) : Prop where
  subset : held ⊆ come
  card : held.card = min width come.card

theorem saturates_refl (small : held.card ≤ width) : Saturates width held held :=
  ⟨Finset.Subset.refl held, (Nat.min_eq_right small).symm⟩

namespace Saturates

theorem all_held (saturates : Saturates width held come) (fits : come.card ≤ width) :
    held = come :=
  Finset.eq_of_subset_of_card_le saturates.subset (by rw [saturates.card, Nat.min_eq_right fits])

theorem full (saturates : Saturates width held come) (crowded : width ≤ come.card) :
    held.card = width := by
  rw [saturates.card, Nat.min_eq_left crowded]

theorem absent_of_room (saturates : Saturates width held come) (absent : item ∉ held)
    (room : held.card < width) : item ∉ come := by
  have fits : come.card ≤ width := by
    have card := saturates.card
    omega
  rwa [← saturates.all_held fits]

theorem admits [DecidableEq α] {next : Finset α} (saturates : Saturates width held come)
    (admits : Admits width held item next) : Saturates width next (insert item come) := by
  cases admits with
  | present member =>
      rw [Finset.insert_eq_of_mem (saturates.subset member)]
      exact saturates
  | added absent room =>
      refine ⟨Finset.insert_subset_insert item saturates.subset, ?_⟩
      rw [Finset.card_insert_of_notMem absent,
        Finset.card_insert_of_notMem (saturates.absent_of_room absent room), saturates.card]
      have card := saturates.card
      omega
  | @replaced victim absent member full =>
      refine ⟨Finset.insert_subset_insert item ((Finset.erase_subset victim held).trans
        saturates.subset), ?_⟩
      have many : width ≤ (insert item come).card :=
        full ▸ Finset.card_le_card (saturates.subset.trans (Finset.subset_insert item come))
      have gone : item ∉ held.erase victim := fun inside => absent (Finset.mem_of_mem_erase inside)
      rw [Finset.card_insert_of_notMem gone, Finset.card_erase_of_mem member, Nat.min_eq_left many]
      have positive := Finset.card_pos.mpr ⟨victim, member⟩
      omega

end Saturates

end PulseMap
