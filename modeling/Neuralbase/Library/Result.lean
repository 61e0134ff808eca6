import Mathlib

namespace Neuralbase.Library

/-! Peeling lemmas for computations in `Except`.  A fallible function of the
model is a chain of binds and guards; a proof about a successful call takes the
chain apart one link at a time. -/

variable {ε α β : Type}

theorem bind_eq_ok {first : Except ε α} {next : α → Except ε β} {result : β} :
    (first >>= next) = .ok result ↔ ∃ value, first = .ok value ∧ next value = .ok result := by
  cases first with
  | error reason => simp [bind, Except.bind]
  | ok value => simp [bind, Except.bind]

theorem check_eq_ok {check : Except ε Unit} {next : Unit → Except ε β} {result : β} :
    (check >>= next) = .ok result ↔ check = .ok () ∧ next () = .ok result := by
  rw [bind_eq_ok]
  exact ⟨fun ⟨⟨⟩, passes, rest⟩ => ⟨passes, rest⟩, fun ⟨passes, rest⟩ => ⟨(), passes, rest⟩⟩

theorem guard_eq_ok {condition : Prop} [Decidable condition] {reason : ε}
    {next : Except ε β} {result : β} :
    (do if condition then throw reason
        next) = .ok result ↔ ¬ condition ∧ next = .ok result := by
  by_cases holds : condition <;> simp [holds, throw, throwThe, MonadExceptOf.throw, bind, Except.bind]

theorem pure_eq_ok {value result : α} : (pure value : Except ε α) = .ok result ↔ value = result := by
  simp [pure, Except.pure]

theorem throw_ne_ok {reason : ε} {result : α} : (throw reason : Except ε α) ≠ .ok result := by
  simp [throw, throwThe, MonadExceptOf.throw]

theorem mapError_eq_ok {η : Type} {make : ε → η} {outcome : Except ε α} {value : α} :
    outcome.mapError make = .ok value ↔ outcome = .ok value := by
  cases outcome <;> simp [Except.mapError]

theorem map_eq_ok {outcome : Except ε α} {make : α → β} {result : β} :
    outcome.map make = .ok result ↔ ∃ value, outcome = .ok value ∧ make value = result := by
  cases outcome <;> simp [Except.map]

theorem forM_eq_ok {check : α → Except ε Unit} {items : List α} :
    forM items check = .ok () ↔ ∀ item ∈ items, check item = .ok () := by
  induction items with
  | nil => simp [pure_eq_ok]
  | cons item rest induction => simp [check_eq_ok, induction]

/-- The invariant of a loop that may fail. -/
theorem foldlM_keeps {f : β → α → Except ε β} (P : β → Prop) {items : List α} {start final : β}
    (ran : items.foldlM f start = .ok final) (initial : P start)
    (step : ∀ before item after, P before → f before item = .ok after → P after) : P final := by
  induction items generalizing start with
  | nil =>
    cases pure_eq_ok.mp ran
    exact initial
  | cons item items induction =>
    rw [List.foldlM_cons] at ran
    obtain ⟨middle, took, rest⟩ := bind_eq_ok.mp ran
    exact induction rest (step _ _ _ initial took)

theorem mapM_eq_ok {make : α → Except ε β} {items : List α} {results : List β} :
    items.mapM make = .ok results ↔ List.Forall₂ (fun item result => make item = .ok result) items results := by
  induction items generalizing results with
  | nil =>
    rw [List.mapM_nil, pure_eq_ok, List.forall₂_nil_left_iff, eq_comm]
  | cons item rest induction =>
    rw [List.mapM_cons, List.forall₂_cons_left_iff, bind_eq_ok]
    constructor
    · rintro ⟨first, made, more⟩
      obtain ⟨others, all, same⟩ := bind_eq_ok.mp more
      exact ⟨first, others, made, induction.mp all, (pure_eq_ok.mp same).symm⟩
    · rintro ⟨first, others, made, all, rfl⟩
      exact ⟨first, made, bind_eq_ok.mpr ⟨others, induction.mpr all, rfl⟩⟩

theorem forall₂_left {R : α → β → Prop} {items : List α} {results : List β} {item : α}
    (each : List.Forall₂ R items results) (inside : item ∈ items) : ∃ result ∈ results, R item result := by
  induction each with
  | nil => cases inside
  | @cons first result _ _ related _ induction =>
    rcases List.mem_cons.mp inside with rfl | inside
    · exact ⟨result, List.mem_cons_self, related⟩
    · obtain ⟨found, member, related⟩ := induction inside
      exact ⟨found, List.mem_cons_of_mem _ member, related⟩

theorem forall₂_right {R : α → β → Prop} {items : List α} {results : List β} {result : β}
    (each : List.Forall₂ R items results) (inside : result ∈ results) : ∃ item ∈ items, R item result :=
  forall₂_left each.flip inside

theorem mapM_eq_map {make : α → Except ε β} {result : α → β} {items : List α}
    (each : ∀ item ∈ items, make item = .ok (result item)) : items.mapM make = .ok (items.map result) := by
  rw [mapM_eq_ok, List.forall₂_map_right_iff, List.forall₂_same]
  exact each

end Neuralbase.Library
