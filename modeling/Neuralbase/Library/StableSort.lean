import Mathlib

namespace Neuralbase.Library

/-! Stable sorting by a comparison.  A sort is asked for nothing where the comparison is not that of
a total preorder on the elements. -/

variable {α : Type}

structure IsStableSort (order : α → α → Ordering) (items sorted : List α) : Prop where
  perm : sorted.Perm items
  ascending : sorted.Pairwise fun left right => (order left right).isLE
  stable : ∀ a ∈ items, (sorted.filter fun b => order a b = .eq) = items.filter fun b => order a b = .eq

/-- On the items, `cmp` compares like `order`. -/
def Agrees (cmp order : α → α → Ordering) (items : List α) : Prop :=
  ∀ a ∈ items, ∀ b ∈ items, cmp a b = order a b

structure StableSort (sortBy : (α → α → Ordering) → List α → List α) : Prop where
  sorts : ∀ (cmp order : α → α → Ordering) [Std.TransCmp order] (items : List α),
    Agrees cmp order items → IsStableSort order items (sortBy cmp items)

def insertionSortBy (cmp : α → α → Ordering) (items : List α) : List α :=
  items.insertionSort fun left right => (cmp left right).isLE

section Insertion

variable {cmp order : α → α → Ordering} {items : List α} {a b : α}

theorem orderedInsert_congr (agrees : ∀ b ∈ items, cmp a b = order a b) :
    items.orderedInsert (fun left right => (cmp left right).isLE) a =
      items.orderedInsert (fun left right => (order left right).isLE) a := by
  induction items with
  | nil => rfl
  | cons b items induction =>
    have same := agrees b List.mem_cons_self
    have rest := induction fun c inside => agrees c (List.mem_cons_of_mem b inside)
    simp only [List.orderedInsert, same, rest]

theorem insertionSortBy_congr (agrees : Agrees cmp order items) :
    insertionSortBy cmp items = insertionSortBy order items := by
  induction items with
  | nil => rfl
  | cons a items induction =>
    have rest : insertionSortBy cmp items = insertionSortBy order items := by
      apply induction
      intro b inside c also
      exact agrees b (List.mem_cons_of_mem a inside) c (List.mem_cons_of_mem a also)
    simp only [insertionSortBy, List.insertionSort_cons] at rest ⊢
    rw [rest]
    apply orderedInsert_congr
    intro b inside
    have member := (List.perm_insertionSort _ items).mem_iff.mp inside
    exact agrees a List.mem_cons_self b (List.mem_cons_of_mem a member)

variable [Std.TransCmp order]

theorem filter_orderedInsert :
    ((items.orderedInsert (fun left right => (order left right).isLE) a).filter fun c => order b c = .eq) =
      (a :: items).filter fun c => order b c = .eq := by
  induction items with
  | nil => rfl
  | cons c items induction =>
    rw [List.orderedInsert]
    split
    · rfl
    · rename_i above
      rw [List.filter_cons, induction]
      by_cases first : order b a = .eq
      · -- Equal elements would have been left in their order.
        have apart : order b c ≠ .eq := by
          intro second
          have same : order a c = .eq := Std.TransCmp.eq_trans (Std.OrientedCmp.eq_symm first) second
          simp [same] at above
        simp [first, apart]
      · simp [first, List.filter_cons]

theorem filter_insertionSortBy (a : α) :
    ((insertionSortBy order items).filter fun b => order a b = .eq) = items.filter fun b => order a b = .eq := by
  induction items with
  | nil => rfl
  | cons b items induction =>
    simp only [insertionSortBy, List.insertionSort_cons] at induction ⊢
    rw [filter_orderedInsert, List.filter_cons, induction, List.filter_cons]

theorem isStableSort_insertionSortBy : IsStableSort order items (insertionSortBy order items) where
  perm := List.perm_insertionSort _ items
  ascending := by
    have : Std.Total fun left right => ((order left right).isLE : Prop) := ⟨fun left right => by
      rw [@Std.OrientedCmp.eq_swap _ order _ right left]
      cases order left right <;> simp⟩
    have : IsTrans α fun left right => ((order left right).isLE : Prop) := ⟨fun _ _ _ => Std.TransCmp.isLE_trans⟩
    exact List.pairwise_insertionSort _ items
  stable a _ := filter_insertionSortBy a

end Insertion

theorem stableSort_insertionSortBy : @StableSort α insertionSortBy where
  sorts cmp order _ items agrees := by
    rw [insertionSortBy_congr agrees]
    exact isStableSort_insertionSortBy

end Neuralbase.Library
