import Neuralbase.Storage.Executor
import Neuralbase.Storage.Mvcc.Steps

namespace Neuralbase.Storage

open Neuralbase.Library
open Neuralbase.Consensus (Bytes)

/-! What the calls of the executor can add to the store: versions of rows that they have
buffered, and nothing else. -/

/-- What is not as before is a version of an `allowed` row. -/
def Adds (allowed : RowWrite → Prop) (data after : ColumnFamily) : Prop :=
  ∀ key, after.get key = data.get key ∨ ∃ write ts, allowed write ∧
    key = encodeVersionedKey write.tableId write.pk ts ∧ after.get key = some write.value

section Adds

variable {allowed : RowWrite → Prop} {data after final : ColumnFamily}

theorem Adds.refl : Adds allowed data data := fun _ => .inl rfl

theorem Adds.trans (first : Adds allowed data after) (second : Adds allowed after final) : Adds allowed data final := by
  intro key
  rcases second key with same | added
  · rcases first key with kept | ⟨write, ts, permitted, here, stored⟩
    · exact .inl (same.trans kept)
    · exact .inr ⟨write, ts, permitted, here, same.trans stored⟩
  · exact .inr added

theorem Adds.agreeOn {other : UInt32} (adds : Adds allowed data after)
    (apart : ∀ write, allowed write → write.tableId ≠ other) : AgreeOn other data after := by
  intro key starts
  rcases adds key with same | ⟨write, ts, permitted, rfl, _⟩
  · exact same
  · exact absurd (hasTable_encode.mp starts) (apart write permitted)

theorem adds_putRows {ts : HlcTimestamp} {writes : List RowWrite}
    (permitted : ∀ write ∈ writes, allowed write) : Adds allowed data (putRows data ts writes) := by
  induction writes generalizing data with
  | nil => exact .refl
  | cons write rest induction =>
    have first : Adds allowed data (data.put (encodeVersionedKey write.tableId write.pk ts) write.value) := by
      intro key
      by_cases same : key = encodeVersionedKey write.tableId write.pk ts
      · exact .inr ⟨write, ts, permitted write List.mem_cons_self, same, same ▸ SortedMap.get_put_self⟩
      · exact .inl (SortedMap.get_put_ne same)
    exact first.trans (induction fun later inside => permitted later (List.mem_cons_of_mem _ inside))

end Adds

section Transactions

variable {m next : TransactionManager} {t : TxnHandle} {allowed : RowWrite → Prop} {a : TxnAction}

/-- Whatever `t` has buffered is allowed. -/
def BuffersOnly (allowed : RowWrite → Prop) (t : TxnHandle) (m : TransactionManager) : Prop :=
  ∀ tx, m.txns t = some tx → ∀ write ∈ tx.writes, allowed write

/-- An action of `t` that writes allowed rows only. -/
def Acts (allowed : RowWrite → Prop) (t : TxnHandle) : TxnAction → Prop
  | .write writer tableId pk value => writer = t ∧ allowed { tableId, pk, value }
  | .beginTick actor _ | .beginRegister actor | .read actor _ _ | .commitCheck actor | .commitTick actor _
  | .commitWrite actor _ | .commitFinish actor | .rollback actor => actor = t
  | .nextTimestamp _ => True

theorem BuffersOnly.setTxn {tx : Transaction} (permitted : ∀ write ∈ tx.writes, allowed write) :
    BuffersOnly allowed t (m.setTxn t tx) := by
  intro found held
  simp only [TransactionManager.setTxn, Function.update_self, Option.some.injEq] at held
  subst held
  exact permitted

theorem write_allowed {tx : Transaction} {tableId : UInt32} {pk value : Bytes}
    (permitted : ∀ write ∈ tx.writes, allowed write) (new : allowed { tableId, pk, value }) :
    ∀ write ∈ (tx.write tableId pk value).writes, allowed write := by
  intro write inside
  rcases List.mem_append.mp inside with kept | added
  · exact permitted write (List.mem_of_mem_filter kept)
  · cases List.mem_singleton.mp added
    exact new

theorem BuffersOnly.step (step : TxnStep m a next) (acts : Acts allowed t a) (buffers : BuffersOnly allowed t m) :
    Adds allowed m.data next.data ∧ BuffersOnly allowed t next := by
  cases step with
  | beginTick actor wall free =>
    cases acts
    exact ⟨.refl, .setTxn (by simp [Transaction.new])⟩
  | write writer tx tableId pk value found active =>
    obtain ⟨rfl, new⟩ := acts
    exact ⟨.refl, .setTxn (write_allowed (buffers tx found) new)⟩
  | read actor tx tableId pk found active => exact ⟨.refl, buffers⟩
  | conflict actor tx write free found active inside conflicting =>
    cases acts
    exact ⟨.refl, .setTxn (buffers tx found)⟩
  | beginRegister actor tx found | check actor tx _ found | commitTick actor tx _ found
  | commitFail actor tx _ found | commitFinish actor tx found =>
    cases acts
    exact ⟨.refl, .setTxn (buffers tx found)⟩
  | commitWrite actor tx commitTs found stamped =>
    cases acts
    exact ⟨adds_putRows (buffers tx found), .setTxn (buffers tx found)⟩
  | rollback actor tx found active =>
    cases acts
    exact ⟨.refl, .setTxn (by simp)⟩
  | nextTimestamp wall => exact ⟨.refl, buffers⟩

theorem BuffersOnly.runs {actions : List TxnAction} (ran : Library.runs TransactionManager.exec m actions = some next)
    (acts : ∀ a ∈ actions, Acts allowed t a) (buffers : BuffersOnly allowed t m) :
    Adds allowed m.data next.data ∧ BuffersOnly allowed t next := by
  refine runs_invariant (fun reached => Adds allowed m.data reached.data ∧ BuffersOnly allowed t reached) ran
    ⟨.refl, buffers⟩ ?_
  intro reached a inside next ⟨added, buffers⟩ executed
  obtain ⟨more, buffers⟩ := buffers.step (TransactionManager.exec_step executed) (acts a inside)
  exact ⟨added.trans more, buffers⟩

theorem beginTick_buffers {wall : Nat} (executed : m.exec (.beginTick t wall) = some next) :
    next.data = m.data ∧ BuffersOnly allowed t next := by
  cases TransactionManager.exec_step executed with
  | beginTick _ _ free => exact ⟨rfl, .setTxn (by simp [Transaction.new])⟩

end Transactions

section Calls

variable {m next : TransactionManager} {tableId : UInt32} {call : TxnCall} {allowed : RowWrite → Prop}

theorem openWrites_adds {rows : List (Bytes × Bytes)}
    (permitted : ∀ row ∈ rows, allowed { tableId, pk := row.1, value := row.2 })
    (ran : runs TransactionManager.exec m (TransactionManager.openWrites call tableId rows) = some next) :
    Adds allowed m.data next.data ∧ BuffersOnly allowed call.writer next := by
  obtain ⟨begun, ticked, ran⟩ := Option.bind_eq_some_iff.mp ran
  obtain ⟨same, buffers⟩ := beginTick_buffers ticked
  obtain ⟨rest, buffers⟩ := buffers.runs ran (by
    intro a inside
    rcases List.mem_cons.mp inside with rfl | inside
    · rfl
    · obtain ⟨row, written, rfl⟩ := List.mem_map.mp inside
      exact ⟨rfl, permitted row written⟩)
  exact ⟨same ▸ rest, buffers⟩

theorem commitTxn_adds {result : TransactionManager × Except ExecError Unit}
    (buffers : BuffersOnly allowed call.writer m) (committed : m.commitTxn call = some result) :
    Adds allowed m.data result.1.data := by
  obtain ⟨checked, passed, committed⟩ := Option.bind_eq_some_iff.mp committed
  obtain ⟨first, buffers⟩ := buffers.step (TransactionManager.exec_step passed) rfl
  split at committed
  · cases committed
    exact first
  obtain ⟨stored, ran, committed⟩ := Option.bind_eq_some_iff.mp committed
  obtain ⟨second, buffers⟩ := buffers.runs ran (by
    intro a inside
    rcases List.mem_cons.mp inside with rfl | inside
    · rfl
    · cases List.mem_singleton.mp inside
      rfl)
  split at committed
  · obtain ⟨finished, executed, same⟩ := Option.bind_eq_some_iff.mp committed
    cases same
    exact (first.trans second).trans (buffers.step (TransactionManager.exec_step executed) rfl).1
  · cases committed
    exact first.trans second

theorem insertRow_adds {pk encoded : Bytes} {result : TransactionManager × Except ExecError Unit}
    (inserted : m.insertRow call tableId pk encoded = some result) :
    Adds (· = { tableId, pk, value := encoded }) m.data result.1.data := by
  obtain ⟨buffered, ran, committed⟩ := Option.bind_eq_some_iff.mp inserted
  obtain ⟨first, buffers⟩ : Adds (· = { tableId, pk, value := encoded }) m.data buffered.data ∧
      BuffersOnly (· = { tableId, pk, value := encoded }) call.writer buffered := openWrites_adds (by simp) ran
  exact first.trans (commitTxn_adds buffers committed)

theorem readRows_rows {result : TransactionManager × List (Bytes × Bytes)}
    (read : m.readRows call tableId = some result) :
    result.1.data = m.data ∧ ∃ snapshotTs, result.2 = scanTable m.data tableId snapshotTs := by
  obtain ⟨opened, ran, read⟩ := Option.bind_eq_some_iff.mp read
  obtain ⟨tx, _, read⟩ := Option.bind_eq_some_iff.mp read
  obtain ⟨closed, rolled, read⟩ := Option.bind_eq_some_iff.mp read
  cases read
  obtain ⟨begun, ticked, ran⟩ := Option.bind_eq_some_iff.mp ran
  obtain ⟨registered, executed, ran⟩ := Option.bind_eq_some_iff.mp ran
  cases ran
  have first : begun.data = m.data := by
    cases TransactionManager.exec_step ticked
    rfl
  have second : opened.data = begun.data := by
    cases TransactionManager.exec_step executed
    rfl
  have third : closed.data = opened.data := by
    cases TransactionManager.exec_step rolled
    rfl
  rw [third, second, first]
  exact ⟨rfl, tx.snapshotTs, rfl⟩

def IsChange (tableId : UInt32) (seen : List (Bytes × Bytes)) (change : Bytes → Option Bytes)
    (write : RowWrite) : Prop :=
  write.tableId = tableId ∧ ∃ row ∈ seen, row.1 = write.pk ∧ change row.2 = some write.value

theorem changeRows_adds {change : Bytes → Option Bytes} {result : TransactionManager × Except ExecError Nat}
    (changed : m.changeRows call tableId change = some result) : ∃ snapshotTs,
      Adds (IsChange tableId (scanTable m.data tableId snapshotTs) change) m.data result.1.data := by
  obtain ⟨⟨closed, rows⟩, read, changed⟩ := Option.bind_eq_some_iff.mp changed
  obtain ⟨same, snapshotTs, scanned⟩ := readRows_rows read
  obtain ⟨buffered, ran, changed⟩ := Option.bind_eq_some_iff.mp changed
  refine ⟨snapshotTs, ?_⟩
  dsimp only at same scanned
  rw [← scanned, ← same]
  have chosen : ∀ row ∈ rows.filterMap fun row => (change row.2).map fun value => (row.1, value),
      IsChange tableId rows change { tableId, pk := row.1, value := row.2 } := by
    intro row inside
    obtain ⟨old, found, selected⟩ := List.mem_filterMap.mp inside
    obtain ⟨value, taken, rfl⟩ := Option.map_eq_some_iff.mp selected
    exact ⟨rfl, old, found, rfl, taken⟩
  obtain ⟨first, buffers⟩ := openWrites_adds chosen ran
  split at changed
  · obtain ⟨released, rolled, last⟩ := Option.bind_eq_some_iff.mp changed
    cases last
    exact first.trans (buffers.step (TransactionManager.exec_step rolled) rfl).1
  · obtain ⟨finished, committed, last⟩ := Option.bind_eq_some_iff.mp changed
    cases last
    exact first.trans (commitTxn_adds buffers committed)

end Calls

end Neuralbase.Storage
