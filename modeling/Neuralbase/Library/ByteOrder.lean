import Mathlib
import Neuralbase.Library.BigEndian

namespace Neuralbase.Library

/-! The order of byte strings, which is the order in which a store keeps its keys,
and how it treats a common prefix and a big-endian suffix. -/

instance byteLinearOrder : LinearOrder UInt8 where
  le_refl := UInt8.le_refl
  le_trans := fun _ _ _ => UInt8.le_trans
  lt_iff_le_not_ge := fun left right => by
    simp only [UInt8.lt_iff_toNat_lt, UInt8.le_iff_toNat_le]
    omega
  le_antisymm := fun _ _ => UInt8.le_antisymm
  le_total := UInt8.le_total
  toDecidableLE := inferInstance
  toDecidableEq := inferInstance
  toDecidableLT := inferInstance

section Lexicographic

variable {α : Type} [LinearOrder α] {stem left right key : List α}

theorem append_lt_append : stem ++ left < stem ++ right ↔ left < right := by
  induction stem with
  | nil => rfl
  | cons head tail induction => simpa [List.cons_lt_cons_iff] using induction

theorem append_le_append : stem ++ left ≤ stem ++ right ↔ left ≤ right := by
  rw [← not_lt, ← not_lt, append_lt_append]

theorem prefix_of_between (above : stem ++ left ≤ key) (below : key ≤ stem ++ right) : stem <+: key := by
  induction stem generalizing key with
  | nil => exact List.nil_prefix
  | cons head tail induction =>
    cases key with
    | nil => exact absurd above (not_le.mpr (List.nil_lt_cons _ _))
    | cons first rest =>
      have up : head ≤ first := by
        by_contra lower
        exact absurd above (not_le.mpr (List.cons_lt_cons_iff.mpr (.inl (not_le.mp lower))))
      have down : first ≤ head := by
        by_contra higher
        exact absurd below (not_le.mpr (List.cons_lt_cons_iff.mpr (.inl (not_le.mp higher))))
      obtain rfl := le_antisymm up down
      rw [List.prefix_cons_inj]
      have inner : tail ++ left ≤ rest := (@append_le_append _ _ [head] _ _).mp above
      have outer : rest ≤ tail ++ right := (@append_le_append _ _ [head] _ _).mp below
      exact induction inner outer

theorem append_concat_lt {last next : α} (same : left.length = right.length) :
    left ++ [last] < right ++ [next] ↔ left < right ∨ left = right ∧ last < next := by
  induction left generalizing right with
  | nil =>
    cases right with
    | nil => simp [List.cons_lt_cons_iff]
    | cons head tail => cases same
  | cons first rest induction =>
    cases right with
    | nil => cases same
    | cons head tail =>
      have shorter : rest.length = tail.length := Nat.succ.inj same
      simp only [List.cons_append, List.cons_lt_cons_iff, induction shorter, List.cons.injEq]
      tauto

theorem append_lt_of_lt {first second : List α} (same : left.length = right.length) (less : left < right) :
    left ++ first < right ++ second := by
  induction left generalizing right with
  | nil =>
    cases right with
    | nil => exact absurd less (lt_irrefl _)
    | cons head tail => cases same
  | cons head rest induction =>
    cases right with
    | nil => cases same
    | cons other tail =>
      rw [List.cons_append, List.cons_append, List.cons_lt_cons_iff]
      rcases List.cons_lt_cons_iff.mp less with smaller | ⟨rfl, shorter⟩
      · exact .inl smaller
      · exact .inr ⟨rfl, induction (Nat.succ.inj same) shorter⟩

end Lexicographic

theorem toBeBytes_inj {width left right : Nat} (small : left < 256 ^ width)
    (bounded : right < 256 ^ width) : toBeBytes width left = toBeBytes width right ↔ left = right := by
  constructor
  · intro same
    rw [← fromBeBytes_toBeBytes width left small, same, fromBeBytes_toBeBytes width right bounded]
  · rintro rfl
    rfl

theorem toBeBytes_lt {width left right : Nat} (small : left < 256 ^ width)
    (bounded : right < 256 ^ width) : toBeBytes width left < toBeBytes width right ↔ left < right := by
  induction width generalizing left right with
  | zero =>
    have zeros : left = 0 ∧ right = 0 := by constructor <;> simpa using ‹_ < 256 ^ 0›
    simp [zeros.1, zeros.2, toBeBytes]
  | succ width induction =>
    have high : ∀ value, value < 256 ^ (width + 1) → value / 256 < 256 ^ width := by
      intro value inside
      rw [Nat.div_lt_iff_lt_mul (by decide), ← Nat.pow_succ]
      exact inside
    have last : UInt8.ofNat (left % 256) < UInt8.ofNat (right % 256) ↔ left % 256 < right % 256 := by
      simp [UInt8.lt_iff_toNat_lt]
    rw [toBeBytes, toBeBytes, append_concat_lt (by simp), induction (high left small) (high right bounded),
      toBeBytes_inj (high left small) (high right bounded), last]
    omega

end Neuralbase.Library
