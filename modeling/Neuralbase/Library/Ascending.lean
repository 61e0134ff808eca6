import Mathlib

namespace Neuralbase.Library

variable {α : Type} [LinearOrder α]

/-- The elements of a finite set in increasing order: how an ordered tree set is
iterated.  Insertion sort keeps it evaluable. -/
def ascending (set : Finset α) : List α :=
  Quot.liftOn set.val (List.insertionSort (· ≤ ·)) fun left right same =>
    ((List.perm_insertionSort _ left).trans (same.trans
      (List.perm_insertionSort _ right).symm)).eq_of_pairwise'
        (List.pairwise_insertionSort _ left) (List.pairwise_insertionSort _ right)

@[simp] theorem mem_ascending {set : Finset α} {element : α} :
    element ∈ ascending set ↔ element ∈ set := by
  obtain ⟨⟨elements⟩, nodup⟩ := set
  exact List.mem_insertionSort _

end Neuralbase.Library
