import Neuralbase.Library.Machine
import Neuralbase.Storage.Hlc

namespace Neuralbase.Storage

open Neuralbase.Library

/-! The clock of a node (`hlc.rs`) under any sequence of calls.  Every call holds the lock
around its change of the clock, and the wall clock may read anything at each of them. -/

inductive HlcError where
  | skewExceeded (skewMs maxSkewMs : Nat)
deriving DecidableEq

structure HlcClock where
  inner : HlcTimestamp
  maxSkewMs : Nat
deriving DecidableEq

/-- The clock moves on by this reading within the 48 bits of a stored timestamp. -/
def HlcTimestamp.HasRoom (clock : HlcTimestamp) (wall : Nat) : Prop :=
  clock.wallMs < 2 ^ 48 ∧ wall < 2 ^ 48 ∧
    (wall ≤ clock.wallMs → clock.logical = Fin.last _ → clock.wallMs + 1 < 2 ^ 48)

instance (clock : HlcTimestamp) (wall : Nat) : Decidable (clock.HasRoom wall) :=
  inferInstanceAs (Decidable (_ ∧ _ ∧ (_ → _ → _)))

theorem HlcTimestamp.hasRoom_iff {clock : HlcTimestamp} {wall : Nat} :
    clock.HasRoom wall ↔ (advance clock wall).Fits := by
  unfold HasRoom advance Fits
  by_cases full : clock.logical = Fin.last _
  all_goals
    simp only [full, if_true, if_false]
    split_ifs <;> simp <;> omega

/-- `saturating_add(1)` on 16 bits. -/
def saturatingNext (logical : Fin (2 ^ 16)) : Fin (2 ^ 16) :=
  if logical = Fin.last _ then logical else logical + 1

/-- What an accepted `update` sets the clock to. -/
def merge (current : HlcTimestamp) (wall : Nat) (remote : HlcTimestamp) : HlcTimestamp :=
  let next := advance (advance current wall) remote.wallMs
  if next.wallMs = remote.wallMs then
    { next with logical := saturatingNext (Max.max next.logical remote.logical) }
  else next

inductive ClockCall where
  | tick (wall : Nat)
  | update (wall : Nat) (remote : HlcTimestamp)
  | observeCommitted (committed : HlcTimestamp)
deriving DecidableEq

namespace HlcClock

def new (maxSkewMs : Nat) : HlcClock := { inner := .zero, maxSkewMs }

def tick (clock : HlcClock) (wall : Nat) : HlcClock × HlcTimestamp :=
  ({ clock with inner := advance clock.inner wall }, advance clock.inner wall)

def observeCommitted (clock : HlcClock) (committed : HlcTimestamp) : HlcClock × HlcTimestamp :=
  ({ clock with inner := Storage.observeCommitted clock.inner committed },
    Storage.observeCommitted clock.inner committed)

/-- The remote wall clock is ahead of the local one by more than the bound.  Sum and
difference are 64-bit numbers. -/
def SkewExceeded (clock : HlcClock) (wall : Nat) (remote : HlcTimestamp) : Prop :=
  (wall + clock.maxSkewMs) % 2 ^ 64 < remote.wallMs

instance (clock : HlcClock) (wall : Nat) (remote : HlcTimestamp) : Decidable (clock.SkewExceeded wall remote) :=
  inferInstanceAs (Decidable (_ < _))

def update (clock : HlcClock) (wall : Nat) (remote : HlcTimestamp) : HlcClock × Except HlcError HlcTimestamp :=
  if clock.SkewExceeded wall remote then
    (clock, .error (.skewExceeded ((remote.wallMs + 2 ^ 64 - wall) % 2 ^ 64) clock.maxSkewMs))
  else ({ clock with inner := merge clock.inner wall remote }, .ok (merge clock.inner wall remote))

def exec (clock : HlcClock) : ClockCall → HlcClock × Except HlcError HlcTimestamp
  | .tick wall => ((clock.tick wall).1, .ok (clock.tick wall).2)
  | .update wall remote => clock.update wall remote
  | .observeCommitted committed =>
    ((clock.observeCommitted committed).1, .ok (clock.observeCommitted committed).2)

end HlcClock

abbrev ClockEvent := ClockCall × Except HlcError HlcTimestamp

namespace ClockEvent

/-- The timestamp that `tick` or `update` has returned. -/
def issued : ClockEvent → Option HlcTimestamp
  | (.tick _, .ok ts) | (.update _ _, .ok ts) => some ts
  | _ => none

def known : ClockEvent → List HlcTimestamp
  | (.tick _, .ok ts) => [ts]
  | (.update _ remote, .ok ts) => [ts, remote]
  | (.observeCommitted committed, .ok ts) => [ts, committed]
  | (_, .error _) => []

end ClockEvent

namespace HlcClock

def record (clock : HlcClock) : List ClockCall → List ClockEvent
  | [] => []
  | call :: rest => (call, (clock.exec call).2) :: (clock.exec call).1.record rest

def step (clock : HlcClock) (call : ClockCall) : Option HlcClock := some (clock.exec call).1

/-- What the clock is set to fits the stored 48 bits, and an accepted remote timestamp with
the wall reading that the clock then has leaves a greater counter free. -/
def Orderly (clock : HlcClock) : ClockCall → Prop
  | .tick wall => clock.inner.HasRoom wall
  | .update wall remote => ¬ clock.SkewExceeded wall remote →
      (advance clock.inner wall).HasRoom remote.wallMs ∧
        ((advance (advance clock.inner wall) remote.wallMs).wallMs = remote.wallMs →
          remote.logical ≠ Fin.last _)
  | .observeCommitted committed => committed.Fits

instance : ∀ (clock : HlcClock) (call : ClockCall), Decidable (clock.Orderly call)
  | clock, .tick wall => inferInstanceAs (Decidable (clock.inner.HasRoom wall))
  | _, .update _ _ => inferInstanceAs (Decidable (¬ _ → _ ∧ (_ → _)))
  | _, .observeCommitted committed => inferInstanceAs (Decidable committed.Fits)

end HlcClock

section Merge

variable {current remote : HlcTimestamp} {wall : Nat}

theorem le_saturatingNext (logical : Fin (2 ^ 16)) : logical ≤ saturatingNext logical := by
  unfold saturatingNext
  split
  · exact le_rfl
  · rename_i more
    exact (Fin.lt_add_one_iff.mpr (Fin.val_lt_last more)).le

theorem lt_saturatingNext {logical : Fin (2 ^ 16)} (room : logical ≠ Fin.last _) :
    logical < saturatingNext logical := by
  rw [saturatingNext, if_neg room]
  exact Fin.lt_add_one_iff.mpr (Fin.val_lt_last room)

theorem le_advance_wallMs : current.wallMs ≤ (advance current wall).wallMs ∧ wall ≤ (advance current wall).wallMs := by
  unfold advance
  split
  · exact ⟨le_of_lt ‹_›, le_rfl⟩
  split
  · rename_i behind _
    exact ⟨Nat.le_succ _, (not_lt.mp behind).trans (Nat.le_succ _)⟩
  · rename_i behind _
    exact ⟨le_rfl, not_lt.mp behind⟩

theorem merge_wallMs : (merge current wall remote).wallMs = (advance (advance current wall) remote.wallMs).wallMs := by
  unfold merge
  dsimp only
  split <;> rfl

theorem le_merge : advance (advance current wall) remote.wallMs ≤ merge current wall remote := by
  unfold merge
  dsimp only
  split
  · rw [← not_lt, HlcTimestamp.lt_iff]
    rintro (earlier | ⟨_, smaller⟩)
    · exact lt_irrefl _ earlier
    · exact absurd ((le_max_left _ _).trans (le_saturatingNext _)) (not_le.mpr smaller)
  · exact le_rfl

theorem lt_merge : current < merge current wall remote :=
  (lt_advance current wall).trans ((lt_advance _ remote.wallMs).trans_le le_merge)

theorem remote_lt_merge
    (room : (advance (advance current wall) remote.wallMs).wallMs = remote.wallMs → remote.logical ≠ Fin.last _) :
    remote < merge current wall remote := by
  have above : remote.wallMs ≤ (advance (advance current wall) remote.wallMs).wallMs := le_advance_wallMs.2
  rw [HlcTimestamp.lt_iff, merge_wallMs]
  rcases above.lt_or_eq with ahead | level
  · exact .inl ahead
  · refine .inr ⟨level, ?_⟩
    rw [merge, if_pos level.symm]
    show remote.logical < saturatingNext (Max.max _ remote.logical)
    rcases le_total (advance (advance current wall) remote.wallMs).logical remote.logical with less | more
    · rw [max_eq_right less]
      exact lt_saturatingNext (room level.symm)
    · rw [max_eq_left more]
      -- The counter of the clock may be the last one, but the remote one is not.
      rcases more.lt_or_eq with smaller | same
      · exact smaller.trans_le (le_saturatingNext _)
      · rw [← same]
        exact lt_saturatingNext (room level.symm)

end Merge

namespace HlcClock

variable {clock : HlcClock} {call : ClockCall}

/-- What one orderly call does: the clock never goes back, all that is known then fits and
is not ahead of it, and what is issued is new. -/
theorem exec_orderly (fits : clock.inner.Fits) (orderly : clock.Orderly call) :
    (clock.exec call).1.inner.Fits ∧ clock.inner ≤ (clock.exec call).1.inner ∧
      (∀ known ∈ ClockEvent.known (call, (clock.exec call).2), known.Fits ∧ known ≤ (clock.exec call).1.inner) ∧
      ∀ issued ∈ ClockEvent.issued (call, (clock.exec call).2), issued.Fits ∧ clock.inner < issued := by
  cases call with
  | tick wall =>
    have later := lt_advance clock.inner wall
    have orderly := HlcTimestamp.hasRoom_iff.mp orderly
    refine ⟨orderly, later.le, List.forall_mem_singleton.mpr ⟨orderly, le_rfl⟩, ?_⟩
    rintro issued ⟨⟩
    exact ⟨orderly, later⟩
  | update wall remote =>
    by_cases skewed : clock.SkewExceeded wall remote
    · simp only [exec, update, if_pos skewed]
      exact ⟨fits, le_rfl, by rintro _ ⟨⟩, by rintro _ ⟨⟩⟩
    · obtain ⟨reading, counter⟩ := orderly skewed
      have room := HlcTimestamp.hasRoom_iff.mp reading
      have later := @lt_merge clock.inner remote wall
      have passed := remote_lt_merge counter
      have bounded : (merge clock.inner wall remote).Fits := by
        rw [HlcTimestamp.Fits, merge_wallMs]
        exact room
      simp only [exec, update, if_neg skewed]
      have remoteFits : remote.Fits := le_advance_wallMs.2.trans_lt room
      refine ⟨bounded, later.le, List.forall_mem_cons.mpr ⟨⟨bounded, le_rfl⟩,
        List.forall_mem_singleton.mpr ⟨remoteFits, passed.le⟩⟩, ?_⟩
      rintro issued ⟨⟩
      exact ⟨bounded, later⟩
  | observeCommitted committed =>
    obtain ⟨kept, reached⟩ := le_observeCommitted clock.inner committed
    have bounded : (Storage.observeCommitted clock.inner committed).Fits := by
      unfold Storage.observeCommitted
      split
      · exact orderly
      · exact fits
    exact ⟨bounded, kept, List.forall_mem_cons.mpr ⟨⟨bounded, le_rfl⟩,
      List.forall_mem_singleton.mpr ⟨orderly, reached⟩⟩, by rintro _ ⟨⟩⟩

theorem lt_issued {calls : List ClockCall} (fits : clock.inner.Fits)
    (orderly : Throughout step Orderly clock calls) {event : ClockEvent} (inside : event ∈ clock.record calls) :
    (∀ known ∈ event.known, known.Fits) ∧ ∀ issued ∈ event.issued, issued.Fits ∧ clock.inner < issued := by
  induction calls generalizing clock with
  | nil => cases inside
  | cons call rest induction =>
    obtain ⟨bounded, kept, seen, new⟩ := exec_orderly fits orderly.1
    rcases List.mem_cons.mp inside with rfl | later
    · exact ⟨fun known member => (seen known member).1, new⟩
    · obtain ⟨each, issued⟩ := induction bounded (orderly.2 _ rfl) later
      exact ⟨each, fun ts member => ⟨(issued ts member).1, kept.trans_lt (issued ts member).2⟩⟩

theorem record_pairwise {calls : List ClockCall} (fits : clock.inner.Fits)
    (orderly : Throughout step Orderly clock calls) :
    (clock.record calls).Pairwise fun earlier later =>
      ∀ known ∈ earlier.known, ∀ issued ∈ later.issued, known < issued := by
  induction calls generalizing clock with
  | nil => exact List.Pairwise.nil
  | cons call rest induction =>
    obtain ⟨bounded, _, seen, _⟩ := exec_orderly fits orderly.1
    refine List.pairwise_cons.mpr ⟨fun event inside known member issued new => ?_,
      induction bounded (orderly.2 _ rfl)⟩
    exact (seen known member).2.trans_lt ((lt_issued bounded (orderly.2 _ rfl) inside).2 issued new).2

theorem remote_lt_issued {calls : List ClockCall} (orderly : Throughout step Orderly clock calls) {wall : Nat}
    {remote issued : HlcTimestamp} (inside : (ClockCall.update wall remote, .ok issued) ∈ clock.record calls) :
    remote < issued := by
  induction calls generalizing clock with
  | nil => cases inside
  | cons call rest induction =>
    rcases List.mem_cons.mp inside with same | later
    · obtain ⟨rfl, returned⟩ := Prod.mk.inj same
      by_cases skewed : clock.SkewExceeded wall remote
      · simp only [exec, update, if_pos skewed] at returned
        cases returned
      · simp only [exec, update, if_neg skewed] at returned
        cases returned
        exact remote_lt_merge (orderly.1 skewed).2
    · exact induction (orderly.2 _ rfl) later

end HlcClock

/-- In an orderly run what `tick` and `update` return is greater than all that was returned
or observed before, and than the remote timestamp; the packed numbers say the same. -/
theorem clock_monotone (maxSkewMs : Nat) (calls : List ClockCall)
    (orderly : Throughout HlcClock.step HlcClock.Orderly (.new maxSkewMs) calls) :
    ((HlcClock.new maxSkewMs).record calls).Pairwise (fun earlier later =>
      ∀ known ∈ earlier.known, ∀ issued ∈ later.issued, known < issued ∧ known.toU64 < issued.toU64) ∧
    (∀ wall remote issued, (ClockCall.update wall remote, .ok issued) ∈ (HlcClock.new maxSkewMs).record calls →
      remote < issued ∧ remote.toU64 < issued.toU64) ∧
    ∀ event ∈ (HlcClock.new maxSkewMs).record calls, ∀ known ∈ event.known,
      HlcTimestamp.fromU64 known.toU64 = known := by
  have start : (HlcClock.new maxSkewMs).inner.Fits := (by decide : HlcTimestamp.zero.Fits)
  have fits : ∀ event ∈ (HlcClock.new maxSkewMs).record calls, ∀ known ∈ event.known, known.Fits :=
    fun event inside => (HlcClock.lt_issued start orderly inside).1
  refine ⟨?_, fun wall remote issued inside => ?_, fun event inside known member =>
    HlcTimestamp.fromU64_toU64 (fits event inside known member)⟩
  · refine (HlcClock.record_pairwise start orderly).imp_of_mem ?_
    intro earlier later first second ordered known member issued new
    have less := ordered known member issued new
    exact ⟨less, (HlcTimestamp.toU64_lt (fits earlier first known member)
      ((HlcClock.lt_issued start orderly second).2 issued new).1).mpr less⟩
  · have less := HlcClock.remote_lt_issued orderly inside
    exact ⟨less, (HlcTimestamp.toU64_lt (fits _ inside remote (by simp [ClockEvent.known]))
      (fits _ inside issued (by simp [ClockEvent.known]))).mpr less⟩

/-- A clock that stands still, runs back, hears from a peer and learns a commit. -/
theorem clock_monotone_five :
    ((HlcClock.new 500).record [.tick 1000, .tick 1000, .update 900 ⟨1200, 7⟩, .observeCommitted ⟨2000, 65535⟩,
      .tick 10]).Pairwise fun earlier later =>
        ∀ known ∈ earlier.known, ∀ issued ∈ later.issued, known < issued ∧ known.toU64 < issued.toU64 :=
  (clock_monotone 500 _ (by decide)).1

/-- A remote timestamp with the last counter is returned unchanged, and a tick after the
greatest stored timestamp is packed to zero. -/
theorem clock_stalls : (HlcClock.new 500).record [.update 1000 ⟨1000, 65535⟩] =
      [(.update 1000 ⟨1000, 65535⟩, .ok ⟨1000, 65535⟩)] ∧
    (HlcClock.new 500).record [.observeCommitted ⟨2 ^ 48 - 1, 65535⟩, .tick 1000] =
      [(.observeCommitted ⟨2 ^ 48 - 1, 65535⟩, .ok ⟨2 ^ 48 - 1, 65535⟩), (.tick 1000, .ok ⟨2 ^ 48, 0⟩)] ∧
    HlcTimestamp.toU64 ⟨2 ^ 48, 0⟩ = 0 ∧ HlcTimestamp.fromU64 (HlcTimestamp.toU64 ⟨2 ^ 48, 0⟩) ≠ ⟨2 ^ 48, 0⟩ := by
  decide

end Neuralbase.Storage
