import Mathlib

namespace Neuralbase.Library

/-! Statements about each event of a growing record and what came before it. -/

variable {α : Type*} {P Q : List α → α → Prop} {events : List α}

/-- `P` holds of every event and the events before it. -/
def EachAfter (P : List α → α → Prop) (events : List α) : Prop :=
  ∀ before event after, events = before ++ event :: after → P before event

theorem eachAfter_nil : EachAfter P [] := by
  intro before event after split
  simp at split

theorem eachAfter_concat {event : α} : EachAfter P (events ++ [event]) ↔ EachAfter P events ∧ P events event := by
  constructor
  · intro holds
    refine ⟨fun before earlier after split => holds before earlier (after ++ [event]) ?_,
      holds events event [] rfl⟩
    rw [split, List.append_assoc, List.cons_append]
  · rintro ⟨holds, last⟩ before earlier after split
    rcases List.eq_nil_or_concat after with rfl | ⟨middle, final, rfl⟩
    · obtain ⟨rfl, same⟩ := List.append_inj' split rfl
      cases same
      exact last
    · rw [List.concat_eq_append, ← List.cons_append, ← List.append_assoc] at split
      obtain ⟨rfl, -⟩ := List.append_inj' split rfl
      exact holds before earlier middle rfl

theorem EachAfter.mono_within (holds : EachAfter P events)
    (implies : ∀ before event, (∀ earlier ∈ before, earlier ∈ events) → P before event →
      Q before event) : EachAfter Q events := by
  intro before event after split
  refine implies before event (fun earlier inside => ?_) (holds before event after split)
  rw [split]
  exact List.mem_append_left _ inside

def Before (events : List α) (first second : α) : Prop :=
  ∃ earlier between later, events = earlier ++ first :: (between ++ second :: later)

theorem Before.mem_second {first second : α} (order : Before events first second) : second ∈ events := by
  obtain ⟨earlier, between, later, rfl⟩ := order
  simp

theorem Before.at_second {first second : α} (order : Before events first second)
    (holds : EachAfter P events) : ∃ before, first ∈ before ∧ P before second := by
  obtain ⟨earlier, between, later, rfl⟩ := order
  refine ⟨earlier ++ first :: between, by simp, holds _ second later ?_⟩
  simp

theorem before_of_sublist {first second : α} (order : [first, second].Sublist events) : Before events first second := by
  obtain ⟨front, back, rfl, here, there⟩ := List.cons_sublist_iff.mp order
  obtain ⟨earlier, between, rfl⟩ := List.append_of_mem here
  obtain ⟨middle, later, rfl⟩ := List.append_of_mem (List.singleton_sublist.mp there)
  exact ⟨earlier, between ++ middle, later, by simp⟩

theorem before_or_before {first second : α} (inside : first ∈ events) (also : second ∈ events)
    (apart : first ≠ second) : Before events first second ∨ Before events second first := by
  obtain ⟨earlier, later, rfl⟩ := List.append_of_mem inside
  rcases List.mem_append.mp also with front | back
  · obtain ⟨prior, rest, rfl⟩ := List.append_of_mem front
    exact .inr ⟨prior, rest, later, by simp⟩
  · rcases List.mem_cons.mp back with same | back
    · exact absurd same.symm apart
    · obtain ⟨middle, rest, rfl⟩ := List.append_of_mem back
      exact .inl ⟨earlier, middle, rest, rfl⟩

end Neuralbase.Library
