import Neuralbase.Storage.Mvcc

namespace Neuralbase.Storage

open Neuralbase.Library
open Neuralbase.Consensus (Bytes)

/-! What one step of the transaction manager can do, and what that means for the
stored versions. -/

open TransactionManager in
inductive TxnStep (m : TransactionManager) : TxnAction → TransactionManager → Prop
  | beginTick (t : TxnHandle) (wall : Nat) : m.txns t = none →
      TxnStep m (.beginTick t wall)
        (({ m with clock := advance m.clock wall }.setTxn t (.new (advance m.clock wall))).record
          (.began t (advance m.clock wall)))
  | beginRegister (t : TxnHandle) (tx : Transaction) : m.txns t = some tx → tx.phase = .drawn →
      TxnStep m (.beginRegister t) { m.setTxn t { tx with phase := .active } with
        activeSnapshots := insert tx.id m.activeSnapshots }
  | write (t : TxnHandle) (tx : Transaction) (tableId : UInt32) (pk value : Bytes) :
      m.txns t = some tx → tx.phase = .active →
      TxnStep m (.write t tableId pk value)
        ((m.setTxn t (tx.write tableId pk value)).record (.wrote t tableId pk))
  | read (t : TxnHandle) (tx : Transaction) (tableId : UInt32) (pk : Bytes) :
      m.txns t = some tx → tx.phase = .active →
      TxnStep m (.read t tableId pk)
        (m.record (.read t tx.snapshotTs tableId pk (m.read tx tableId pk)))
  | conflict (t : TxnHandle) (tx : Transaction) (write : RowWrite) : m.serializer = none →
      m.txns t = some tx → tx.phase = .active → write ∈ tx.writes →
      m.hasConflictingVersion write tx.snapshotTs = true →
      TxnStep m (.commitCheck t)
        (((m.removeSnapshot tx.id).setTxn t { tx with phase := .conflicted }).record
          (.conflicted t tx.snapshotTs tx.writes))
  | check (t : TxnHandle) (tx : Transaction) : m.serializer = none →
      m.txns t = some tx → tx.phase = .active →
      (∀ write ∈ tx.writes, m.hasConflictingVersion write tx.snapshotTs = false) →
      TxnStep m (.commitCheck t)
        { m.setTxn t { tx with phase := .checked } with serializer := some t }
  | commitTick (t : TxnHandle) (tx : Transaction) (wall : Nat) : m.txns t = some tx →
      tx.phase = .checked →
      TxnStep m (.commitTick t wall) ({ m with clock := advance m.clock wall }.setTxn t
        { tx with phase := .stamped (advance m.clock wall) })
  | commitWrite (t : TxnHandle) (tx : Transaction) (commitTs : HlcTimestamp) :
      m.txns t = some tx → tx.phase = .stamped commitTs →
      TxnStep m (.commitWrite t true)
        (({ m with data := putRows m.data commitTs tx.writes }.setTxn t
          { tx with phase := .written }).record (.committed t tx.snapshotTs commitTs tx.writes))
  | commitFail (t : TxnHandle) (tx : Transaction) (commitTs : HlcTimestamp) :
      m.txns t = some tx → tx.phase = .stamped commitTs →
      TxnStep m (.commitWrite t false)
        { m.setTxn t { tx with phase := .failed } with serializer := none }
  | commitFinish (t : TxnHandle) (tx : Transaction) : m.txns t = some tx → tx.phase = .written →
      TxnStep m (.commitFinish t)
        { (m.removeSnapshot tx.id).setTxn t { tx with phase := .committed } with
          serializer := none }
  | rollback (t : TxnHandle) (tx : Transaction) : m.txns t = some tx → tx.phase = .active →
      TxnStep m (.rollback t)
        ((m.removeSnapshot tx.id).setTxn t { tx with phase := .rolledBack, writes := [] })
  | nextTimestamp (wall : Nat) :
      TxnStep m (.nextTimestamp wall) { m with clock := advance m.clock wall }

namespace TransactionManager

variable {m next : TransactionManager} {t : TxnHandle} {tx : Transaction} {phase : Phase}

theorem inPhase_eq_some : m.inPhase t phase = some tx ↔ m.txns t = some tx ∧ tx.phase = phase := by
  simp [inPhase, Option.filter_eq_some_iff]

theorem stampedTxn_eq_some {commitTs : HlcTimestamp} (found : m.stampedTxn t = some (tx, commitTs)) :
    m.txns t = some tx ∧ tx.phase = .stamped commitTs := by
  obtain ⟨other, running, stamped⟩ := Option.bind_eq_some_iff.mp found
  split at stamped
  · rename_i drawn phase
    cases stamped
    exact ⟨running, phase⟩
  · cases stamped

theorem exec_step {a : TxnAction} (executed : m.exec a = some next) : TxnStep m a next := by
  cases a with
  | beginTick t wall =>
    simp only [exec] at executed
    split at executed
    · cases executed
    · rename_i fresh
      cases executed
      exact .beginTick t wall (by simpa using fresh)
  | beginRegister t =>
    obtain ⟨tx, found, rfl⟩ := Option.map_eq_some_iff.mp executed
    obtain ⟨running, phase⟩ := inPhase_eq_some.mp found
    exact .beginRegister t tx running phase
  | write t tableId pk value =>
    obtain ⟨tx, found, rfl⟩ := Option.map_eq_some_iff.mp executed
    obtain ⟨running, phase⟩ := inPhase_eq_some.mp found
    exact .write t tx tableId pk value running phase
  | read t tableId pk =>
    obtain ⟨tx, found, rfl⟩ := Option.map_eq_some_iff.mp executed
    obtain ⟨running, phase⟩ := inPhase_eq_some.mp found
    exact .read t tx tableId pk running phase
  | commitCheck t =>
    simp only [exec] at executed
    split at executed
    · cases executed
    rename_i free
    have free : m.serializer = none := by simpa using free
    obtain ⟨tx, found, rfl⟩ := Option.map_eq_some_iff.mp executed
    obtain ⟨running, phase⟩ := inPhase_eq_some.mp found
    unfold commitCheck
    split
    · rename_i conflicting
      obtain ⟨write, inside, newer⟩ := List.any_eq_true.mp conflicting
      exact .conflict t tx write free running phase inside newer
    · rename_i clean
      refine .check t tx free running phase fun write inside => ?_
      by_contra newer
      exact clean (List.any_eq_true.mpr ⟨write, inside, by simpa using newer⟩)
  | commitTick t wall =>
    obtain ⟨tx, found, rfl⟩ := Option.map_eq_some_iff.mp executed
    obtain ⟨running, phase⟩ := inPhase_eq_some.mp found
    exact .commitTick t tx wall running phase
  | commitWrite t succeeds =>
    obtain ⟨⟨tx, commitTs⟩, found, rfl⟩ := Option.map_eq_some_iff.mp executed
    obtain ⟨running, phase⟩ := stampedTxn_eq_some found
    cases succeeds with
    | true => exact .commitWrite t tx commitTs running phase
    | false => exact .commitFail t tx commitTs running phase
  | commitFinish t =>
    obtain ⟨tx, found, rfl⟩ := Option.map_eq_some_iff.mp executed
    obtain ⟨running, phase⟩ := inPhase_eq_some.mp found
    exact .commitFinish t tx running phase
  | rollback t =>
    obtain ⟨tx, found, rfl⟩ := Option.map_eq_some_iff.mp executed
    obtain ⟨running, phase⟩ := inPhase_eq_some.mp found
    exact .rollback t tx running phase
  | nextTimestamp wall =>
    cases executed
    exact .nextTimestamp wall

end TransactionManager

theorem TxnRun.invariant {allowed : TransactionManager → TxnAction → Prop}
    {start m : TransactionManager} {Inv : TransactionManager → Prop} (run : TxnRun allowed start m)
    (initial : Inv start) (kept : ∀ {m next a}, allowed m a → Inv m → TxnStep m a next → Inv next) : Inv m := by
  induction run with
  | start => exact initial
  | step earlier permits executed holds =>
    exact kept permits holds (TransactionManager.exec_step executed)

section Schedules

variable {allowed : TransactionManager → TxnAction → Prop} [DecidableRel allowed]
  {start m next : TransactionManager}

def TransactionManager.play (allowed : TransactionManager → TxnAction → Prop) [DecidableRel allowed]
    (m : TransactionManager) : List TxnAction → Option TransactionManager
  | [] => some m
  | a :: rest => if allowed m a then (m.exec a).bind fun next => next.play allowed rest else none

theorem TxnRun.play {schedule : List TxnAction} (run : TxnRun allowed start m)
    (played : m.play allowed schedule = some next) : TxnRun allowed start next := by
  induction schedule generalizing m with
  | nil =>
    cases played
    exact run
  | cons a rest induction =>
    simp only [TransactionManager.play] at played
    split at played
    · rename_i permits
      obtain ⟨after, executed, played⟩ := Option.bind_eq_some_iff.mp played
      exact induction (run.step permits executed) played
    · cases played

theorem exists_run (check : List TxnEvent → Prop) [DecidablePred check] (schedule : List TxnAction)
    (played : (start.play allowed schedule).any fun m => decide (check m.history)) :
    ∃ m, TxnRun allowed start m ∧ check m.history := by
  cases ends : start.play allowed schedule with
  | none =>
    rw [ends] at played
    cases played
  | some m =>
    rw [ends] at played
    exact ⟨m, TxnRun.start.play ends, of_decide_eq_true played⟩

end Schedules

section Batches

variable {data : ColumnFamily} {tableId : UInt32} {pk : Bytes} {ts stamp : HlcTimestamp}
  {writes : List RowWrite}

def OnePerKey (writes : List RowWrite) : Prop :=
  writes.Pairwise fun left right => ¬ right.IsTo left.tableId left.pk

theorem putRows_cons {write : RowWrite} {rest : List RowWrite} :
    putRows data ts (write :: rest) =
      putRows (data.put (encodeVersionedKey write.tableId write.pk ts) write.value) ts rest := rfl

theorem versionsOf_put_self {value : Bytes} (fits : ts.Fits) :
    versionsOf (data.put (encodeVersionedKey tableId pk ts) value) tableId pk ts = some value := by
  rw [versionsOf, if_pos fits, SortedMap.get_put_self]

theorem versionsOf_put_other {write : RowWrite} (fits : ts.Fits) (other : stamp ≠ ts ∨ ¬ write.IsTo tableId pk) :
    versionsOf (data.put (encodeVersionedKey write.tableId write.pk ts) write.value) tableId pk stamp =
      versionsOf data tableId pk stamp := by
  unfold versionsOf
  split
  · rename_i bounded
    refine SortedMap.get_put_ne fun same => ?_
    obtain ⟨table, primary, equal⟩ := (encodeVersionedKey_inj bounded fits).mp same
    rcases other with apart | apart
    · exact apart equal
    · exact apart ⟨table.symm, primary.symm⟩
  · rfl

theorem versionsOf_putRows_ne (fits : ts.Fits) (apart : stamp ≠ ts) :
    versionsOf (putRows data ts writes) tableId pk stamp = versionsOf data tableId pk stamp := by
  induction writes generalizing data with
  | nil => rfl
  | cons write rest induction =>
    rw [putRows_cons, induction, versionsOf_put_other fits (.inl apart)]

theorem versionsOf_putRows_absent (fits : ts.Fits) (absent : ∀ write ∈ writes, ¬ write.IsTo tableId pk) :
    versionsOf (putRows data ts writes) tableId pk stamp = versionsOf data tableId pk stamp := by
  induction writes generalizing data with
  | nil => rfl
  | cons write rest induction =>
    rw [putRows_cons, induction fun other inside => absent other (List.mem_cons_of_mem _ inside),
      versionsOf_put_other fits (.inr (absent write List.mem_cons_self))]

theorem versionsOf_putRows_kept (fits : ts.Fits) (found : versionsOf data tableId pk stamp ≠ none) :
    versionsOf (putRows data ts writes) tableId pk stamp ≠ none := by
  induction writes generalizing data with
  | nil => exact found
  | cons write rest induction =>
    refine induction ?_
    by_cases here : stamp = ts ∧ write.IsTo tableId pk
    · obtain ⟨rfl, rfl, rfl⟩ := here
      simp [versionsOf_put_self fits]
    · rwa [versionsOf_put_other fits (not_and_or.mp here)]

theorem versionsOf_putRows_mem {write : RowWrite} (fits : ts.Fits) (single : OnePerKey writes)
    (inside : write ∈ writes) : versionsOf (putRows data ts writes) write.tableId write.pk ts = some write.value := by
  induction writes generalizing data with
  | nil => cases inside
  | cons first rest induction =>
    obtain ⟨apart, single⟩ := List.pairwise_cons.mp single
    rcases List.mem_cons.mp inside with rfl | inside
    · rw [putRows_cons, versionsOf_putRows_absent fits apart, versionsOf_put_self fits]
    · exact induction single inside

theorem versionsOf_putRows_cases {value : Bytes} (fits : ts.Fits)
    (found : versionsOf (putRows data ts writes) tableId pk stamp = some value) :
    versionsOf data tableId pk stamp = some value ∨
      stamp = ts ∧ ∃ write ∈ writes, write.IsTo tableId pk ∧ write.value = value := by
  induction writes generalizing data with
  | nil => exact .inl found
  | cons write rest induction =>
    rcases induction found with before | ⟨same, other, inside, rest⟩
    · by_cases here : stamp = ts ∧ write.IsTo tableId pk
      · obtain ⟨rfl, table, primary⟩ := here
        rw [← table, ← primary, versionsOf_put_self fits] at before
        exact .inr ⟨rfl, write, List.mem_cons_self, ⟨table, primary⟩, Option.some.inj before⟩
      · rw [versionsOf_put_other fits (not_and_or.mp here)] at before
        exact .inl before
    · exact .inr ⟨same, other, List.mem_cons_of_mem _ inside, rest⟩

theorem OnePerKey.write {tx : Transaction} {value : Bytes} (single : OnePerKey tx.writes) :
    OnePerKey (tx.write tableId pk value).writes := by
  refine List.pairwise_append.mpr ⟨single.filter _, List.pairwise_singleton _ _, ?_⟩
  intro left kept right last
  rw [List.mem_singleton.mp last]
  have apart := of_decide_eq_true (List.mem_filter.mp kept).2
  exact fun same => apart ⟨same.1.symm, same.2.symm⟩

end Batches

end Neuralbase.Storage
