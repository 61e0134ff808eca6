import Neuralbase.Library.Machine

namespace Neuralbase.Distributed.Gather

open Neuralbase.Library

/-! The merge of several inputs into one stream (`distributed/exchange.rs`), with its inputs'
producers.  A wait that ends is one step; a timeout may end a wait at any point at which no row is
queued, since the wait looks at its input before it looks at the clock. -/

section Model

variable {Row : Type}

/-- One input: what is queued on it, and what was sent and returned so far. -/
structure Input (Row : Type) where
  queue : List Row
  closed : Bool
  sent : List Row
  returned : List Row

/-- Where a call of `next` is. -/
inductive Phase where
  | idle
  /-- It has still to poll this many inputs. -/
  | polling (left : Nat)
  /-- It waits on one input. -/
  | blocked
deriving DecidableEq

structure State (Row : Type) where
  inputs : Nat → Input Row
  current : Nat
  phase : Phase
  /-- A call has returned `None`. -/
  ended : Bool

inductive Event (Row : Type) where
  | send (i : Nat) (row : Row)
  | close (inputs : List Nat)
  | next
  /-- The poll gets a row. -/
  | ready
  /-- The poll ends without one: the time is over, or the input is closed. -/
  | pass
  | wake

variable (n : Nat)

def Input.take (input : Input Row) : Option (Input Row) :=
  match input.queue with
  | row :: rest => some { input with queue := rest, returned := input.returned ++ [row] }
  | [] => none

def Input.put (input : Input Row) (row : Row) : Input Row :=
  { input with queue := input.queue ++ [row], sent := input.sent ++ [row] }

def Input.shut (input : Input Row) : Input Row := { input with closed := true }

def initial : State Row where
  inputs _ := { queue := [], closed := false, sent := [], returned := [] }
  current := 0
  phase := .idle
  ended := false

/-- The input `i` gives a row, and the call returns it. -/
def State.takeFrom (s : State Row) (i current : Nat) : Option (State Row) :=
  (s.inputs i).take.map fun input => { s with inputs := Function.update s.inputs i input, current, phase := .idle }

def step (s : State Row) : Event Row → Option (State Row)
  | .send i row =>
    if i < n ∧ (s.inputs i).closed = false then
      some { s with inputs := Function.update s.inputs i ((s.inputs i).put row) }
    else none
  | .close inputs =>
    if ∀ i ∈ inputs, i < n then
      some { s with inputs := fun i => if i ∈ inputs then (s.inputs i).shut else s.inputs i }
    else none
  | .next =>
    if s.phase = .idle then
      if n = 0 then some { s with ended := true } else some { s with phase := .polling n }
    else none
  | .ready =>
    match s.phase with
    | .polling (_ + 1) => s.takeFrom (s.current % n) (s.current + 1)
    | _ => none
  | .pass =>
    match s.phase with
    | .polling (left + 1) =>
      if (s.inputs (s.current % n)).queue = [] then
        some { s with current := s.current + 1, phase := if left = 0 then .blocked else .polling left }
      else none
    | _ => none
  | .wake =>
    match s.phase with
    | .blocked =>
      -- a closed input is drained before it says so
      if (s.inputs (s.current % n)).queue = [] then
        if (s.inputs (s.current % n)).closed then some { s with phase := .idle, ended := true } else none
      else s.takeFrom (s.current % n) s.current
    | _ => none

end Model

section Rows

variable {Row : Type} {n : Nat} {s next : State Row} {event : Event Row} {input later : Input Row}

theorem Input.take_eq_some (took : input.take = some later) :
    ∃ row, input.queue = row :: later.queue ∧ later.closed = input.closed ∧ later.sent = input.sent ∧
      later.returned = input.returned ++ [row] := by
  rw [Input.take] at took
  split at took
  · next row rest shape =>
    cases took
    exact ⟨row, shape, rfl, rfl, rfl⟩
  · cases took

/-- Rows of an input are returned once each and in order; the rest is still queued. -/
def Input.Whole (input : Input Row) : Prop := input.sent = input.returned ++ input.queue

/-- What a step can do to the inputs. -/
inductive Touches (n : Nat) (s : State Row) (event : Event Row) : (Nat → Input Row) → Prop
  | none : Touches n s event s.inputs
  | sent (i : Nat) (row : Row) (inside : i < n) (opened : (s.inputs i).closed = false) :
      Touches n s event (Function.update s.inputs i ((s.inputs i).put row))
  | closed (inputs : List Nat) (is : event = .close inputs) :
      Touches n s event fun i => if i ∈ inputs then (s.inputs i).shut else s.inputs i
  | took (i : Nat) (input : Input Row) (taken : (s.inputs i).take = some input) :
      Touches n s event (Function.update s.inputs i input)

/-- The inputs after some of them were closed. -/
theorem closing_queue {inputs : List Nat} {i : Nat} :
    (if i ∈ inputs then (s.inputs i).shut else s.inputs i).queue = (s.inputs i).queue := by
  split <;> rfl

theorem closing_closed {inputs : List Nat} {i : Nat} :
    (if i ∈ inputs then (s.inputs i).shut else s.inputs i).closed = true ↔
      i ∈ inputs ∨ (s.inputs i).closed = true := by
  by_cases member : i ∈ inputs
  · simp [member, Input.shut]
  · simp [member]

/-- How many inputs the call under way has still to poll. -/
def Phase.left : Phase → Option Nat
  | .idle => none
  | .polling left => some left
  | .blocked => some 0

/-- An input from which nothing will come. -/
def Input.Done (input : Input Row) : Prop := input.closed = true ∧ input.queue = []

/-- What a step can do to the call under way. -/
inductive Moves (n : Nat) (s next : State Row) (event : Event Row) : Prop
  | stays (same : next.phase = s.phase) (at_input : next.current = s.current) (old : ∀ i, (next.inputs i).Done →
      (s.inputs i).Done ∨ ∃ inputs, event = .close inputs ∧ i ∈ inputs ∧ (s.inputs i).queue = [])
  | returns (idle : next.phase = .idle)
  | begins (polls : next.phase = .polling n) (at_input : next.current = s.current)
  | passes (left : Nat) (is : event = .pass) (polled : s.phase = .polling (left + 1)) (now : next.phase.left = some left)
      (at_input : next.current = s.current + 1) (empty : (s.inputs (s.current % n)).queue = [])
      (same : next.inputs = s.inputs)

theorem takeFrom_eq_some {i current : Nat} (took : s.takeFrom i current = some next) :
    Touches n s event next.inputs ∧ next.ended = s.ended ∧ Moves n s next event := by
  obtain ⟨input, taken, rfl⟩ := Option.map_eq_some_iff.mp took
  exact ⟨.took i input taken, rfl, .returns rfl⟩

/-- A step touches the inputs and moves the call as listed, and ends the stream only where the call
waits on a closed and drained input. -/
theorem step_touches (took : step n s event = some next) : Touches n s event next.inputs ∧
    (next.ended = s.ended ∨ next.inputs = s.inputs ∧
      (n = 0 ∨ s.phase = .blocked ∧ (s.inputs (s.current % n)).Done)) ∧ Moves n s next event := by
  cases event with
  | send i row =>
    simp only [step] at took
    split_ifs at took with possible
    cases took
    refine ⟨.sent i row possible.1 possible.2, .inl rfl, .stays rfl rfl fun j done => .inl ?_⟩
    rcases eq_or_ne j i with rfl | other
    · simp [Input.Done, Input.put] at done
    · simpa only [Function.update_of_ne other] using done
  | close inputs =>
    simp only [step] at took
    split_ifs at took
    cases took
    refine ⟨.closed inputs rfl, .inl rfl, .stays rfl rfl fun j done => ?_⟩
    obtain ⟨shut, empty⟩ := done
    rw [closing_queue] at empty
    rcases closing_closed.mp shut with closing | already
    · exact .inr ⟨inputs, rfl, closing, empty⟩
    · exact .inl ⟨already, empty⟩
  | next =>
    simp only [step] at took
    split_ifs at took with idle nothing
    · cases took
      exact ⟨.none, .inr ⟨rfl, .inl nothing⟩, .stays rfl rfl fun _ => .inl⟩
    · cases took
      exact ⟨.none, .inl rfl, .begins rfl rfl⟩
  | ready =>
    simp only [step] at took
    split at took
    · obtain ⟨touched, same, moved⟩ := takeFrom_eq_some took
      exact ⟨touched, .inl same, moved⟩
    · cases took
  | pass =>
    simp only [step] at took
    split at took
    · rename_i left polled
      split_ifs at took with empty last
      · cases took
        exact ⟨.none, .inl rfl, .passes left rfl polled (by simp [Phase.left, last]) rfl empty rfl⟩
      · cases took
        exact ⟨.none, .inl rfl, .passes left rfl polled rfl rfl empty rfl⟩
    · cases took
  | wake =>
    simp only [step] at took
    split at took
    · rename_i waits
      split_ifs at took with drained shut
      · cases took
        exact ⟨.none, .inr ⟨rfl, .inr ⟨waits, shut, drained⟩⟩, .returns rfl⟩
      · obtain ⟨touched, same, moved⟩ := takeFrom_eq_some took
        exact ⟨touched, .inl same, moved⟩
    · cases took

theorem Touches.whole {inputs : Nat → Input Row} (touched : Touches n s event inputs)
    (whole : ∀ i, (s.inputs i).Whole) (i : Nat) : (inputs i).Whole := by
  have before := whole i
  cases touched with
  | none => exact before
  | sent j row _ _ =>
    rcases eq_or_ne i j with rfl | other
    · rw [Function.update_self]
      simp only [Input.Whole, Input.put] at before ⊢
      rw [before, List.append_assoc]
    · rwa [Function.update_of_ne other]
  | closed inputs _ =>
    by_cases inside : i ∈ inputs
    · simp only [inside, if_true]
      exact before
    · simpa only [inside, if_false] using before
  | took j input taken =>
    rcases eq_or_ne i j with rfl | other
    · obtain ⟨row, shape, _, sent, returned⟩ := Input.take_eq_some taken
      rw [Function.update_self, Input.Whole, sent, returned, before, shape, List.append_assoc]
      rfl
    · rwa [Function.update_of_ne other]

end Rows

section Closing

variable {Row : Type} {n : Nat} {s next : State Row} {event : Event Row}

/-- A poll gives up on an open input only while something may come from the input that the call began
with, and that one is closed in the course of the call only with rows queued on it or after the inputs
that the call has passed. -/
def Prompt (n : Nat) (s : State Row) : Event Row → Prop
  | .pass => ∀ left ∈ s.phase.left, (s.inputs (s.current % n)).closed = false →
      ¬ (s.inputs ((s.current + left) % n)).Done
  | .close inputs => ∀ left ∈ s.phase.left, (s.current + left) % n ∈ inputs →
      (s.inputs ((s.current + left) % n)).queue = [] →
      ∀ passed < s.current, s.current + left ≤ passed + n →
        (passed % n ∈ inputs ∨ (s.inputs (passed % n)).closed = true) ∧ (s.inputs (passed % n)).queue = []
  | _ => True

instance [DecidableEq Row] (input : Input Row) : Decidable input.Done :=
  inferInstanceAs (Decidable (_ ∧ _))

instance [DecidableEq Row] (s : State Row) (event : Event Row) : Decidable (Prompt n s event) := by
  cases event <;> unfold Prompt <;> infer_instance

/-- If nothing will come from the input that the call began with, nothing will come from the inputs
that it has passed. -/
def Round (n : Nat) (s : State Row) : Prop :=
  ∀ left ∈ s.phase.left, (s.inputs ((s.current + left) % n)).Done →
    ∀ passed < s.current, s.current + left ≤ passed + n → (s.inputs (passed % n)).Done

/-- Nothing comes from an input that is done. -/
theorem Touches.done {inputs : Nat → Input Row} (touched : Touches n s event inputs) {i : Nat}
    (done : (s.inputs i).Done) : (inputs i).Done := by
  obtain ⟨shut, empty⟩ := done
  cases touched with
  | none => exact ⟨shut, empty⟩
  | sent k row bound opened =>
    rcases eq_or_ne i k with rfl | different
    · exact absurd (shut.symm.trans opened) (by decide)
    · rw [Function.update_of_ne different]
      exact ⟨shut, empty⟩
  | closed inputs _ => exact ⟨closing_closed.mpr (.inr shut), closing_queue.trans empty⟩
  | took k input taken =>
    obtain ⟨row, shape, _, _, _⟩ := Input.take_eq_some taken
    rcases eq_or_ne i k with rfl | different
    · rw [empty] at shape
      cases shape
    · rw [Function.update_of_ne different]
      exact ⟨shut, empty⟩

theorem Round.stays (round : Round n s) (prompt : Prompt n s event) (took : step n s event = some next)
    (same : next.phase = s.phase) (at_input : next.current = s.current) (old : ∀ i, (next.inputs i).Done →
      (s.inputs i).Done ∨ ∃ inputs, event = .close inputs ∧ i ∈ inputs ∧ (s.inputs i).queue = []) : Round n next := by
  intro left under done passed before within
  rw [same] at under
  rw [at_input] at done before within
  -- either the call's own input was done before, or this step closes it
  rcases old _ done with already | ⟨inputs, is, closing, empty⟩
  · exact (step_touches took).1.done (round left under already passed before within)
  · subst is
    obtain ⟨also, drained⟩ := prompt left under closing empty passed before within
    simp only [step] at took
    split_ifs at took
    cases took
    exact ⟨closing_closed.mpr also, closing_queue.trans drained⟩

theorem Round.step (round : Round n s) (prompt : Prompt n s event) (took : step n s event = some next) :
    Round n next := by
  cases (step_touches took).2.2 with
  | stays same at_input old => exact round.stays prompt took same at_input old
  | returns idle =>
    intro left under
    rw [idle] at under
    cases under
  | begins polls at_input =>
    intro left under done passed before within
    rw [polls] at under
    cases under
    omega
  | passes left is polled now at_input empty same =>
    subst is
    intro other under done passed before within
    cases now.symm.trans under
    rw [at_input] at done before within
    have began : s.current + 1 + left = s.current + (left + 1) := by omega
    rw [same, began] at done
    rw [same]
    rcases Nat.lt_succ_iff_lt_or_eq.mp before with earlier | rfl
    · exact round (left + 1) (by rw [polled]; rfl) done passed earlier (by omega)
    · -- the poll that ends: an open input would need the first one not to be done
      refine ⟨?_, empty⟩
      by_contra opened
      exact prompt (left + 1) (by rw [polled]; rfl) (Bool.not_eq_true _ ▸ opened) done

/-- Every input is closed and drained. -/
def Finished (n : Nat) (inputs : Nat → Input Row) : Prop := ∀ i < n, (inputs i).Done

theorem Touches.finished {inputs : Nat → Input Row} (touched : Touches n s event inputs)
    (finished : Finished n s.inputs) : Finished n inputs :=
  fun i inside => touched.done (finished i inside)

/-- A call that waits has passed every input. -/
theorem Round.finished (round : Round n s) (polled : n ≤ s.current) (waits : s.phase = .blocked)
    (done : (s.inputs (s.current % n)).Done) : Finished n s.inputs := by
  intro i inside
  have reaches : ∃ passed < s.current, s.current ≤ passed + n ∧ passed % n = i := by
    refine ⟨s.current - 1 - (s.current - 1 - i) % n, ?_, ?_, ?_⟩
    · omega
    · have := Nat.mod_lt (s.current - 1 - i) (Nat.zero_lt_of_lt inside)
      omega
    · have split := Nat.div_add_mod (s.current - 1 - i) n
      have shape : s.current - 1 - (s.current - 1 - i) % n = i + n * ((s.current - 1 - i) / n) := by omega
      rw [shape, Nat.add_mul_mod_self_left, Nat.mod_eq_of_lt inside]
  obtain ⟨passed, before, within, rfl⟩ := reaches
  exact round 0 (by rw [waits]; rfl) done passed before within

/-- The polls of the call under way are among the inputs counted. -/
theorem polled_step (counted : ∀ left ∈ s.phase.left, n ≤ s.current + left) (took : step n s event = some next) :
    ∀ left ∈ next.phase.left, n ≤ next.current + left := by
  intro left under
  cases (step_touches took).2.2 with
  | stays same at_input _ =>
    rw [same] at under
    rw [at_input]
    exact counted left under
  | returns idle =>
    rw [idle] at under
    cases under
  | begins polls at_input =>
    rw [polls] at under
    cases under
    exact Nat.le_add_left _ _
  | passes before is polled now at_input empty same =>
    cases now.symm.trans under
    have earlier := counted (left + 1) (by rw [polled]; rfl)
    omega

/-- With prompt producers, the stream ends when every row of every input was returned once. -/
theorem gather_complete (n : Nat) (events : List (Event Row)) (final : State Row)
    (ran : runs (step n) initial events = some final) (prompt : Throughout (step n) (Prompt n) initial events) :
    (∀ i, (final.inputs i).sent = (final.inputs i).returned ++ (final.inputs i).queue) ∧
      (final.ended = true → ∀ i < n, (final.inputs i).closed = true ∧ (final.inputs i).returned = (final.inputs i).sent) := by
  have kept : (∀ i, (final.inputs i).Whole) ∧ Round n final ∧ (∀ left ∈ final.phase.left, n ≤ final.current + left) ∧
      (final.ended = true → Finished n final.inputs) := by
    refine keeps (fun s => (∀ i, (s.inputs i).Whole) ∧ Round n s ∧ (∀ left ∈ s.phase.left, n ≤ s.current + left) ∧
      (s.ended = true → Finished n s.inputs)) ran prompt
      ⟨fun _ => rfl, nofun, nofun, fun ended => absurd ended Bool.false_ne_true⟩ ?_
    intro s event next kept allowed took
    obtain ⟨whole, round, counted, finished⟩ := kept
    obtain ⟨touched, ending, _⟩ := step_touches took
    refine ⟨touched.whole whole, round.step allowed took, polled_step counted took, fun ended => ?_⟩
    rcases ending with same | ⟨same, nothing | ⟨waits, last⟩⟩
    · exact touched.finished (finished (same.symm.trans ended))
    · exact fun i inside => absurd inside (nothing ▸ Nat.not_lt_zero i)
    · rw [same]
      exact round.finished (counted 0 (by rw [waits]; rfl)) waits last
  obtain ⟨whole, _, _, finished⟩ := kept
  refine ⟨whole, fun ended i inside => ?_⟩
  obtain ⟨shut, empty⟩ := finished ended i inside
  have all := whole i
  rw [Input.Whole, empty, List.append_nil] at all
  exact ⟨shut, all.symm⟩

/-- The first input is closed while the second one still sends, and the second one during the last call. -/
def closedInTurn : List (Event Nat) :=
  [.send 0 7, .send 1 8, .next, .ready, .close [0], .next, .ready, .send 1 9, .next, .pass, .ready, .next, .pass,
    .close [1], .pass, .wake]

theorem gather_closed_in_turn : ∃ final, runs (step 2) initial closedInTurn = some final ∧ final.ended = true ∧
    (final.inputs 0).returned = [7] ∧ (final.inputs 1).returned = [8, 9] ∧
    ∀ i < 2, (final.inputs i).closed = true ∧ (final.inputs i).returned = (final.inputs i).sent := by
  refine ⟨_, rfl, rfl, rfl, rfl, (gather_complete 2 closedInTurn _ rfl ?_).2 rfl⟩
  decide +kernel

/-- The first input is closed and the second one slow: the call waits on the first and ends the
stream, and the row the second input sends then is never returned. -/
theorem gather_ends_early : ∃ final : State Nat,
    runs (step 2) initial [.close [0], .next, .pass, .pass, .wake] = some final ∧ final.ended = true ∧
      (final.inputs 1).closed = false ∧ ∃ later, step 2 final (.send 1 7) = some later ∧
        (later.inputs 1).sent = [7] ∧ (later.inputs 1).returned = [] :=
  ⟨_, rfl, rfl, rfl, _, rfl, rfl, rfl⟩

end Closing

end Neuralbase.Distributed.Gather
