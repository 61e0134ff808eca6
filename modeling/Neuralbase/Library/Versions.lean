import Mathlib

namespace Neuralbase.Library

/-! Reading a multi-version record: the version with the greatest stamp that is not
above a bound. -/

variable {τ β : Type} [LinearOrder τ]

/-- `result` is the value of the newest version at or below `bound`, if there is one. -/
def Newest (versions : τ → Option β) (bound : τ) : Option β → Prop
  | none => ∀ stamp ≤ bound, versions stamp = none
  | some value => ∃ stamp ≤ bound, versions stamp = some value ∧
      ∀ other ≤ bound, versions other ≠ none → other ≤ stamp

namespace Newest

variable {versions later : τ → Option β} {bound : τ} {result other : Option β}

theorem unique (newest : Newest versions bound result) (again : Newest versions bound other) : result = other := by
  cases result with
  | none =>
    cases other with
    | none => rfl
    | some value =>
      obtain ⟨stamp, below, found, _⟩ := again
      rw [newest stamp below] at found
      cases found
  | some value =>
    obtain ⟨stamp, below, found, greatest⟩ := newest
    cases other with
    | none =>
      rw [again stamp below] at found
      cases found
    | some held =>
      obtain ⟨mark, under, there, top⟩ := again
      have same : stamp = mark := le_antisymm (top stamp below (by simp [found]))
        (greatest mark under (by simp [there]))
      rw [← same, found] at there
      exact there

theorem congr (newest : Newest versions bound result)
    (same : ∀ stamp ≤ bound, later stamp = versions stamp) : Newest later bound result := by
  cases result with
  | none => exact fun stamp below => (same stamp below).trans (newest stamp below)
  | some value =>
    obtain ⟨stamp, below, found, greatest⟩ := newest
    refine ⟨stamp, below, (same stamp below).trans found, fun other under there => ?_⟩
    rw [same other under] at there
    exact greatest other under there

theorem thin (newest : Newest versions bound result)
    (fewer : ∀ stamp, later stamp = versions stamp ∨ later stamp = none)
    (kept : ∀ stamp ≤ bound, versions stamp ≠ none → (∀ other ≤ bound, versions other ≠ none → other ≤ stamp) →
      later stamp = versions stamp) : Newest later bound result := by
  cases result with
  | none =>
    intro stamp below
    rcases fewer stamp with same | gone
    · exact same.trans (newest stamp below)
    · exact gone
  | some value =>
    obtain ⟨stamp, below, found, greatest⟩ := newest
    refine ⟨stamp, below, ?_, fun other under there => ?_⟩
    · exact (kept stamp below (by simp [found]) greatest).trans found
    · rcases fewer other with same | gone
      · rw [same] at there
        exact greatest other under there
      · exact absurd gone there

end Newest

end Neuralbase.Library
