import Neuralbase.Library.Machine

namespace Neuralbase.Distributed

open Neuralbase.Library

/-! The back-pressure channel (`distributed/backpressure.rs`): a queue of `capacity` places and a
semaphore of `capacity` permits.  What a call does between two of its waits is one step. -/

section Model

variable {T : Type}

structure Channel (T : Type) where
  capacity : Nat
  permits : Nat
  queue : List T
  dropped : Bool
  /-- Items of the sends that wait for a permit. -/
  waiting : List T
  /-- Items of the sends that have one. -/
  holding : List T
  /-- Every item put on the queue so far. -/
  accepted : List T
  received : List T
deriving DecidableEq

inductive Event (T : Type) where
  | send (item : T)
  | acquire (n : Nat)
  | push (n : Nat)
  | refuse (n : Nat)
  | cancelWaiting (n : Nat)
  | cancelHolding (n : Nat)
  | trySend (item : T)
  | recv
  | dropReceiver
deriving DecidableEq

/-- A queue without a place cannot be made. -/
def boundedChannel (T : Type) (capacity : Nat) : Option (Channel T) :=
  if capacity = 0 then none
  else some { capacity, permits := capacity, queue := [], dropped := false, waiting := [], holding := [],
              accepted := [], received := [] }

def Channel.enqueue (c : Channel T) (item : T) : Channel T :=
  { c with queue := c.queue ++ [item], accepted := c.accepted ++ [item] }

/-- The queue takes an item when the receiver is there and a place is free. -/
def Channel.takes (c : Channel T) : Bool :=
  !c.dropped && decide (c.queue.length < c.capacity)

def step (c : Channel T) : Event T → Option (Channel T)
  | .send item => some { c with waiting := c.waiting ++ [item] }
  | .acquire n =>
    match c.waiting[n]? with
    | some item =>
      if 0 < c.permits then
        some { c with permits := c.permits - 1, waiting := c.waiting.eraseIdx n, holding := c.holding ++ [item] }
      else none
    | none => none
  | .push n =>
    -- the permit is forgotten: it is the item's now
    match c.holding[n]? with
    | some item => if c.takes then some { c.enqueue item with holding := c.holding.eraseIdx n } else none
    | none => none
  | .refuse n =>
    -- the receiver is gone, and the permit goes back as the send returns its item
    if c.dropped ∧ n < c.holding.length then
      some { c with permits := c.permits + 1, holding := c.holding.eraseIdx n }
    else none
  | .cancelWaiting n => if n < c.waiting.length then some { c with waiting := c.waiting.eraseIdx n } else none
  | .cancelHolding n =>
    if n < c.holding.length then some { c with permits := c.permits + 1, holding := c.holding.eraseIdx n } else none
  | .trySend item =>
    if 0 < c.permits then
      -- forgotten before the queue is asked
      let c := { c with permits := c.permits - 1 }
      some (if c.takes then c.enqueue item else c)
    else some c
  | .recv =>
    match c.queue with
    | item :: rest =>
      if c.dropped then none
      else some { c with permits := c.permits + 1, queue := rest, received := c.received ++ [item] }
    | [] => none
  | .dropReceiver => if c.dropped then none else some { c with dropped := true, queue := [] }

end Model

section Conservation

variable {T : Type} {c next : Channel T} {event : Event T}

structure Conserved (c : Channel T) : Prop where
  balance : c.permits + c.queue.length + c.holding.length = c.capacity
  order : c.accepted = c.received ++ c.queue
  gone : c.dropped = true → c.queue = []

/-- The receiver is dropped with nothing queued, and nothing is tried after it. -/
def Orderly (c : Channel T) : Event T → Prop
  | .dropReceiver => c.queue = []
  | .trySend _ => c.dropped = false
  | _ => True

theorem step_capacity (took : step c event = some next) : next.capacity = c.capacity := by
  cases event <;> simp only [step, Channel.enqueue] at took <;> (repeat' split at took) <;> cases took <;>
    rfl

theorem takes_iff : c.takes = true ↔ c.dropped = false ∧ c.queue.length < c.capacity := by
  simp [Channel.takes]

theorem length_eraseIdx {items : List T} {n : Nat} (inside : n < items.length) :
    (items.eraseIdx n).length + 1 = items.length := by
  rw [List.length_eraseIdx_of_lt inside]
  omega

/-- An item is queued, and its permit is gone from the others. -/
theorem conserved_enqueue {item : T} (balance : c.permits + c.queue.length + c.holding.length + 1 = c.capacity)
    (order : c.accepted = c.received ++ c.queue) (present : c.dropped = false) : Conserved (c.enqueue item) := by
  refine ⟨?_, by simp [Channel.enqueue, order], by simp [Channel.enqueue, present]⟩
  simp only [Channel.enqueue, List.length_append, List.length_singleton]
  omega

theorem Conserved.kept (kept : Conserved c) (orderly : Orderly c event) (took : step c event = some next) :
    Conserved next := by
  have balance := kept.balance
  have order := kept.order
  have gone := kept.gone
  cases event with
  | send item =>
    cases took
    exact ⟨balance, order, gone⟩
  | acquire n =>
    simp only [step] at took
    split at took
    · split_ifs at took with free
      cases took
      refine ⟨?_, order, gone⟩
      simp only [List.length_append, List.length_singleton]
      omega
    · cases took
  | push n =>
    simp only [step] at took
    split at took
    · next item found =>
      split_ifs at took with takes
      cases took
      have one := length_eraseIdx (List.getElem?_eq_some_iff.mp found).1
      have room : Conserved ({ c with holding := c.holding.eraseIdx n }.enqueue item) :=
        conserved_enqueue (by simp only; omega) order (takes_iff.mp takes).1
      exact room
    · cases took
  | refuse n =>
    simp only [step] at took
    split_ifs at took with closed
    cases took
    have one := length_eraseIdx closed.2
    exact ⟨by simp only; omega, order, gone⟩
  | cancelWaiting n =>
    simp only [step] at took
    split_ifs at took
    cases took
    exact ⟨balance, order, gone⟩
  | cancelHolding n =>
    simp only [step] at took
    split_ifs at took with inside
    cases took
    have one := length_eraseIdx inside
    exact ⟨by simp only; omega, order, gone⟩
  | trySend item =>
    have present : c.dropped = false := orderly
    simp only [step] at took
    split_ifs at took with free takes
    · cases took
      exact conserved_enqueue (by simp only; omega) order present
    · -- a permit and a full queue would be more than the capacity
      have full : ¬ c.queue.length < c.capacity := fun place => takes (takes_iff.mpr ⟨present, place⟩)
      omega
    · cases took
      exact kept
  | recv =>
    simp only [step] at took
    split at took
    · next item rest shape =>
      split_ifs at took with present
      cases took
      rw [shape] at balance order
      refine ⟨?_, by simp [order], fun closed => absurd closed present⟩
      simp only [List.length_cons] at balance ⊢
      omega
    · cases took
  | dropReceiver =>
    simp only [step] at took
    split_ifs at took
    cases took
    have empty : c.queue = [] := orderly
    rw [empty] at balance order
    exact ⟨balance, order, fun _ => rfl⟩

/-- A send that waits after the receiver is gone can go on, or another one returns its permit first. -/
theorem Conserved.goes_on (kept : Conserved c) (positive : 0 < c.capacity) (gone : c.dropped = true)
    (some_wait : c.waiting ≠ []) :
    (step c (.acquire 0)).isSome = true ∨ (step c (.refuse 0)).isSome = true := by
  have balance := kept.balance
  rw [kept.gone gone, List.length_nil] at balance
  obtain ⟨item, rest, shape⟩ := List.exists_cons_of_ne_nil some_wait
  rcases Nat.eq_zero_or_pos c.permits with none_left | free
  · have held : 0 < c.holding.length := by omega
    exact .inr (by simp [step, gone, held])
  · exact .inl (by simp [step, shape, free])

theorem channel_conserves (capacity : Nat) (start final : Channel T) (events : List (Event T))
    (made : boundedChannel T capacity = some start) (ran : runs step start events = some final)
    (orderly : Throughout step Orderly start events) :
    final.permits + final.queue.length + final.holding.length = capacity ∧ final.queue.length ≤ capacity ∧
      final.accepted = final.received ++ final.queue ∧
      (final.dropped = true → final.waiting ≠ [] →
        (step final (.acquire 0)).isSome = true ∨ (step final (.refuse 0)).isSome = true) := by
  rw [boundedChannel] at made
  split_ifs at made with zero
  cases made
  have kept : Conserved final ∧ final.capacity = capacity :=
    keeps (fun c => Conserved c ∧ c.capacity = capacity) ran orderly ⟨⟨by simp, rfl, by simp⟩, rfl⟩
      fun c event next kept allowed took => ⟨kept.1.kept allowed took, (step_capacity took).trans kept.2⟩
  obtain ⟨conserved, same⟩ := kept
  have balance := conserved.balance
  rw [same] at balance
  exact ⟨balance, by omega, conserved.order, conserved.goes_on (by omega)⟩

/-- Two sends through one place, the first item received before the second is queued. -/
def relay : List (Event Nat) :=
  [.send 5, .send 6, .acquire 0, .push 0, .recv, .acquire 0, .push 0, .recv, .dropReceiver]

theorem relay_conserves : ∃ start final : Channel Nat, boundedChannel Nat 1 = some start ∧
    runs step start relay = some final ∧ final.accepted = final.received ++ final.queue := by
  refine ⟨_, _, rfl, rfl, (channel_conserves 1 _ _ relay rfl rfl ?_).2.2.1⟩
  simp [relay, Throughout, step, Orderly, Channel.enqueue, Channel.takes]

end Conservation

section Loss

variable {T : Type} {c next : Channel T} {event : Event T}

/-- No permit is left, and nobody has one to return. -/
def Stuck (c : Channel T) : Prop :=
  c.dropped = true ∧ c.permits = 0 ∧ c.holding = [] ∧ c.queue = []

theorem Stuck.stays (stuck : Stuck c) (took : step c event = some next) : Stuck next := by
  obtain ⟨closed, none_left, none_held, empty⟩ := stuck
  cases event with
  | send item =>
    cases took
    exact ⟨closed, none_left, none_held, empty⟩
  | acquire n =>
    simp only [step, none_left, lt_irrefl, if_false] at took
    split at took <;> cases took
  | push n => simp [step, none_held] at took
  | refuse n => simp [step, none_held] at took
  | cancelWaiting n =>
    simp only [step] at took
    split_ifs at took
    cases took
    exact ⟨closed, none_left, none_held, empty⟩
  | cancelHolding n => simp [step, none_held] at took
  | trySend item =>
    simp only [step, none_left, lt_irrefl, if_false] at took
    cases took
    exact ⟨closed, none_left, none_held, empty⟩
  | recv => simp [step, empty] at took
  | dropReceiver => simp [step, closed] at took

theorem Stuck.run {events : List (Event T)} (stuck : Stuck c) (ran : runs step c events = some next) : Stuck next :=
  runs_invariant Stuck ran stuck fun _ _ _ _ stuck took => stuck.stays took

/-- The item of the first send is queued when the receiver is dropped: its permit is lost, and the
second send waits for ever. -/
theorem dropped_item_keeps_permit : ∃ start stuck : Channel Nat, boundedChannel Nat 1 = some start ∧
    runs step start [.send 5, .acquire 0, .push 0, .send 6, .dropReceiver] = some stuck ∧
      stuck.permits + stuck.queue.length + stuck.holding.length ≠ 1 ∧ stuck.waiting = [6] ∧
      ∀ events final n, runs step stuck events = some final → step final (.acquire n) = none := by
  refine ⟨_, _, rfl, rfl, by decide, rfl, fun events final n ran => ?_⟩
  have stuck : Stuck final := Stuck.run ⟨rfl, rfl, rfl, rfl⟩ ran
  simp only [step, stuck.2.1, lt_irrefl, if_false]
  split <;> rfl

end Loss

end Neuralbase.Distributed
