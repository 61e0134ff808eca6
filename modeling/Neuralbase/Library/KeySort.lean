import Mathlib

namespace Neuralbase.Library

/-! Lists sorted by a key.  Where no key is there twice, the sorted list depends only on which
elements there are. -/

variable {α κ : Type} [LinearOrder κ] {key : α → κ} {items others : List α}

theorem keySort_pairwise (key : α → κ) (items : List α) :
    (items.insertionSort fun left right => key left ≤ key right).Pairwise fun left right => key left ≤ key right := by
  have : Std.Total fun left right => key left ≤ key right := ⟨fun left right => le_total (key left) (key right)⟩
  have : IsTrans α fun left right => key left ≤ key right := ⟨fun _ _ _ => le_trans⟩
  exact List.pairwise_insertionSort _ items

theorem keySort_strict :
    ((items.insertionSort fun left right => key left ≤ key right).Pairwise fun left right => key left < key right) ↔
      (items.map key).Nodup := by
  rw [← ((List.perm_insertionSort (fun left right => key left ≤ key right) items).map key).nodup_iff, List.Nodup,
    List.pairwise_map]
  constructor
  · intro ascending
    exact ascending.imp fun below => below.ne
  · intro distinct
    exact (keySort_pairwise key items).imp₂ (fun _ _ below apart => lt_of_le_of_ne below apart) distinct

theorem keySort_congr (perm : items.Perm others) (distinct : (items.map key).Nodup) :
    (items.insertionSort fun left right => key left ≤ key right) =
      others.insertionSort fun left right => key left ≤ key right := by
  have sorted := keySort_strict.mpr distinct
  have also := keySort_strict.mpr ((perm.map key).nodup_iff.mp distinct)
  refine List.Perm.eq_of_pairwise (fun left right _ _ below above => absurd below above.asymm) sorted also ?_
  exact (List.perm_insertionSort _ items).trans (perm.trans (List.perm_insertionSort _ others).symm)

end Neuralbase.Library
