import Mathlib

namespace Neuralbase.Library

/-! Deterministic machines driven by a schedule, and simulation between two of them
when some actions of one are invisible to the other. -/

variable {σ τ α β : Type}

def runs (exec : σ → α → Option σ) (s : σ) : List α → Option σ
  | [] => some s
  | a :: rest => (exec s a).bind fun next => runs exec next rest

theorem runs_append {exec : σ → α → Option σ} {s : σ} {first later : List α} :
    runs exec s (first ++ later) = (runs exec s first).bind fun next => runs exec next later := by
  induction first generalizing s with
  | nil => rfl
  | cons a rest induction => simp only [List.cons_append, runs, induction, Option.bind_assoc]

/-- Every step of a schedule is `allowed` in the state it is taken in. -/
def Throughout (exec : σ → α → Option σ) (allowed : σ → α → Prop) (s : σ) : List α → Prop
  | [] => True
  | a :: rest => allowed s a ∧ ∀ next ∈ exec s a, Throughout exec allowed next rest

instance decidableThroughout (exec : σ → α → Option σ) (allowed : σ → α → Prop)
    [decide : ∀ s a, Decidable (allowed s a)] :
    ∀ (schedule : List α) (s : σ), Decidable (Throughout exec allowed s schedule)
  | [], _ => .isTrue trivial
  | _ :: rest, _ =>
    have (next : σ) : Decidable (Throughout exec allowed next rest) :=
      decidableThroughout exec allowed rest next
    inferInstanceAs (Decidable (_ ∧ ∀ next ∈ _, Throughout exec allowed next rest))

theorem Throughout.restrict {exec : σ → α → Option σ} {allowed : σ → α → Prop} {P : α → Prop}
    {schedule : List α} {s : σ} (steps : Throughout exec allowed s schedule)
    (each : ∀ a ∈ schedule, P a) : Throughout exec (fun s a => allowed s a ∧ P a) s schedule := by
  induction schedule generalizing s with
  | nil => trivial
  | cons a rest induction =>
    exact ⟨⟨steps.1, each a List.mem_cons_self⟩, fun next stepped =>
      induction (steps.2 next stepped) fun a inside => each a (List.mem_cons_of_mem _ inside)⟩

theorem Throughout.mono {exec : σ → α → Option σ} {strict allowed : σ → α → Prop}
    {schedule : List α} {s : σ} (steps : Throughout exec strict s schedule)
    (implies : ∀ s a, strict s a → allowed s a) : Throughout exec allowed s schedule := by
  induction schedule generalizing s with
  | nil => trivial
  | cons a rest induction =>
    exact ⟨implies s a steps.1, fun next stepped => induction (steps.2 next stepped)⟩

theorem Throughout.and {exec : σ → α → Option σ} {first second : σ → α → Prop} {schedule : List α} {s : σ}
    (left : Throughout exec first s schedule) (right : Throughout exec second s schedule) :
    Throughout exec (fun s a => first s a ∧ second s a) s schedule := by
  induction schedule generalizing s with
  | nil => trivial
  | cons a rest induction =>
    exact ⟨⟨left.1, right.1⟩, fun next stepped => induction (left.2 next stepped) (right.2 next stepped)⟩

theorem Throughout.append {exec : σ → α → Option σ} {allowed : σ → α → Prop} {s : σ}
    {first later : List α} (steps : Throughout exec allowed s (first ++ later)) : Throughout exec allowed s first ∧
      ∀ next, runs exec s first = some next → Throughout exec allowed next later := by
  induction first generalizing s with
  | nil =>
    refine ⟨trivial, fun next ran => ?_⟩
    cases ran
    exact steps
  | cons a rest induction =>
    refine ⟨⟨steps.1, fun next stepped => (induction (steps.2 next stepped)).1⟩, fun next ran => ?_⟩
    obtain ⟨middle, stepped, ran⟩ := Option.bind_eq_some_iff.mp ran
    exact (induction (steps.2 middle stepped)).2 next ran

theorem keeps {exec : σ → α → Option σ} {allowed : σ → α → Prop} (I : σ → Prop) {schedule : List α}
    {s final : σ} (ran : runs exec s schedule = some final) (steps : Throughout exec allowed s schedule) (initial : I s)
    (step : ∀ s a next, I s → allowed s a → exec s a = some next → I next) : I final := by
  induction schedule generalizing s with
  | nil =>
    cases ran
    exact initial
  | cons a rest induction =>
    obtain ⟨next, stepped, ran⟩ := Option.bind_eq_some_iff.mp ran
    exact induction ran (steps.2 next stepped) (step s a next initial steps.1 stepped)

/-- What every action of a schedule keeps, the schedule keeps. -/
theorem runs_invariant {exec : σ → α → Option σ} (I : σ → Prop) {schedule : List α} {s final : σ}
    (ran : runs exec s schedule = some final) (initial : I s)
    (step : ∀ s, ∀ a ∈ schedule, ∀ next, I s → exec s a = some next → I next) : I final := by
  induction schedule generalizing s with
  | nil =>
    cases ran
    exact initial
  | cons a rest induction =>
    obtain ⟨next, stepped, ran⟩ := Option.bind_eq_some_iff.mp ran
    exact induction ran (step s a List.mem_cons_self next initial stepped) fun s a inside =>
      step s a (List.mem_cons_of_mem _ inside)

theorem runs_map {exec : σ → α → Option σ} {spec : τ → α → Option τ} {view : σ → τ} (I : σ → Prop)
    {schedule : List α} {s : σ} (initial : I s)
    (step : ∀ s, I s → ∀ a ∈ schedule, (exec s a).map view = spec (view s) a ∧ ∀ next ∈ exec s a, I next) :
    (runs exec s schedule).map view = runs spec (view s) schedule := by
  induction schedule generalizing s with
  | nil => rfl
  | cons a rest induction =>
    obtain ⟨viewed, kept⟩ := step s initial a List.mem_cons_self
    rw [runs, runs, ← viewed]
    cases stepped : exec s a with
    | none => rfl
    | some next =>
      exact induction (kept next stepped) fun s holds a inside =>
        step s holds a (List.mem_cons_of_mem _ inside)

/-- Forward simulation.  An action that `project` drops changes nothing for the
specification; any other is matched by one step of it. -/
theorem simulates {exec : σ → α → Option σ} {spec : τ → β → Option τ} {project : α → Option β}
    {allowed : σ → α → Prop} {expected : τ → β → Prop} (R : σ → τ → Prop)
    {schedule : List α} {s final : σ} {t : τ} (ran : runs exec s schedule = some final)
    (steps : Throughout exec allowed s schedule)
    (specified : Throughout spec expected t (schedule.filterMap project)) (related : R s t)
    (silent : ∀ s t a next, R s t → allowed s a → exec s a = some next → project a = none → R next t)
    (matched : ∀ s t a b next, R s t → allowed s a → exec s a = some next → project a = some b →
      expected t b → ∃ after, spec t b = some after ∧ R next after) :
    ∃ after, runs spec t (schedule.filterMap project) = some after ∧ R final after := by
  induction schedule generalizing s t with
  | nil =>
    cases ran
    exact ⟨t, rfl, related⟩
  | cons a rest induction =>
    obtain ⟨next, stepped, ran⟩ := Option.bind_eq_some_iff.mp ran
    obtain ⟨permits, steps⟩ := steps
    have steps := steps next stepped
    cases visible : project a with
    | none =>
      rw [List.filterMap_cons_none visible] at specified ⊢
      exact induction ran steps specified (silent s t a next related permits stepped visible)
    | some b =>
      rw [List.filterMap_cons_some visible] at specified ⊢
      obtain ⟨after, taken, related⟩ :=
        matched s t a b next related permits stepped visible specified.1
      obtain ⟨last, ran, related⟩ := induction ran steps (specified.2 after taken) related
      exact ⟨last, by rw [runs, taken]; exact ran, related⟩

section Answers

variable {ω : Type}

def answers (step : σ → α → σ × ω) (s : σ) : List α → σ × List ω
  | [] => (s, [])
  | a :: rest =>
    let (next, answer) := step s a
    let (final, others) := answers step next rest
    (final, answer :: others)

theorem answers_view {step : σ → α → σ × ω} {spec : τ → α → τ × ω} {view : σ → τ} {allowed : σ → α → Prop}
    (I : σ → Prop) {calls : List α} {s : σ} (initial : I s)
    (steps : Throughout (fun s a => some (step s a).1) allowed s calls)
    (each : ∀ s a, I s → allowed s a → I (step s a).1 ∧ spec (view s) a = (view (step s a).1, (step s a).2)) :
    I (answers step s calls).1 ∧
      answers spec (view s) calls = (view (answers step s calls).1, (answers step s calls).2) := by
  induction calls generalizing s with
  | nil => exact ⟨initial, rfl⟩
  | cons a rest induction =>
    obtain ⟨kept, answered⟩ := each s a initial steps.1
    obtain ⟨final, others⟩ := induction kept (steps.2 _ rfl)
    refine ⟨final, ?_⟩
    simp only [answers, answered, others]

end Answers

end Neuralbase.Library
