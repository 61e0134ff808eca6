import Mathlib

namespace Neuralbase.Library

/-! Strict majorities of a finite set of voters. -/

variable {α : Type} [DecidableEq α]

theorem majorities_intersect {voters left right : Finset α} (leftMajority : voters.card / 2 + 1 ≤ (voters ∩ left).card)
    (rightMajority : voters.card / 2 + 1 ≤ (voters ∩ right).card) : ∃ voter ∈ voters, voter ∈ left ∧ voter ∈ right := by
  have inside : (voters ∩ left) ∪ (voters ∩ right) ⊆ voters :=
    Finset.union_subset Finset.inter_subset_left Finset.inter_subset_left
  have bound := Finset.card_le_card inside
  have counted := Finset.card_union_add_card_inter (voters ∩ left) (voters ∩ right)
  have shared : 0 < ((voters ∩ left) ∩ (voters ∩ right)).card := by omega
  obtain ⟨voter, member⟩ := Finset.card_pos.mp shared
  simp only [Finset.mem_inter] at member
  exact ⟨voter, member.1.1, member.1.2, member.2.2⟩

end Neuralbase.Library
