import Mathlib

namespace Neuralbase.Library

/-! Chains of items in which every item names the digest of the one before it, and the
first one names an anchor. -/

variable {ι η : Type} {digest : ι → η} {names : ι → η → Prop} {anchor : η}
  {items left right : List ι} {item : ι}

def Linked (digest : ι → η) (names : ι → η → Prop) : η → List ι → Prop
  | _, [] => True
  | anchor, item :: rest => names item anchor ∧ Linked digest names (digest item) rest

def tip (digest : ι → η) : η → List ι → η
  | anchor, [] => anchor
  | _, item :: rest => tip digest (digest item) rest

@[simp] theorem tip_concat : tip digest anchor (items ++ [item]) = digest item := by
  induction items generalizing anchor with
  | nil => rfl
  | cons first rest induction => exact induction

theorem linked_append : Linked digest names anchor (left ++ right) ↔
    Linked digest names anchor left ∧ Linked digest names (tip digest anchor left) right := by
  induction left generalizing anchor with
  | nil => simp [Linked, tip]
  | cons first rest induction => simp [Linked, tip, induction, and_assoc]

theorem linked_concat : Linked digest names anchor (items ++ [item]) ↔
    Linked digest names anchor items ∧ names item (tip digest anchor items) := by
  simp [linked_append, Linked]

/-- Two chains on one anchor with one tip are one chain, if their digests do not collide
with each other or with the anchor. -/
theorem eq_of_tip_eq (unique : ∀ item first second, names item first → names item second → first = second)
    (apart : ∀ first ∈ left, ∀ second ∈ right, digest first = digest second → first = second)
    (fresh : ∀ item, item ∈ left ∨ item ∈ right → digest item ≠ anchor)
    (linkedLeft : Linked digest names anchor left) (linkedRight : Linked digest names anchor right)
    (same : tip digest anchor left = tip digest anchor right) : left = right := by
  induction left using List.reverseRecOn generalizing right with
  | nil =>
    cases right using List.reverseRecOn with
    | nil => rfl
    | append_singleton before last _ =>
      exact absurd (same.trans tip_concat).symm (fresh last (.inr (by simp)))
  | append_singleton before last induction =>
    cases right using List.reverseRecOn with
    | nil => exact absurd (tip_concat.symm.trans same) (fresh last (.inl (by simp)))
    | append_singleton before' last' _ =>
      rw [tip_concat, tip_concat] at same
      obtain rfl := apart last (by simp) last' (by simp) same
      obtain ⟨linkedLeft, named⟩ := linked_concat.mp linkedLeft
      obtain ⟨linkedRight, named'⟩ := linked_concat.mp linkedRight
      have beforeApart : ∀ first ∈ before, ∀ second ∈ before', digest first = digest second → first = second :=
        fun first inside second inside' => apart first (by simp [inside]) second (by simp [inside'])
      have beforeFresh : ∀ item, item ∈ before ∨ item ∈ before' → digest item ≠ anchor := by
        rintro item (inside | inside)
        · exact fresh item (.inl (by simp [inside]))
        · exact fresh item (.inr (by simp [inside]))
      rw [induction beforeApart beforeFresh linkedLeft linkedRight (unique last _ _ named named')]

end Neuralbase.Library
