import Mathlib
import Neuralbase.Library.Chronicle
import Neuralbase.Storage.Engine

namespace Neuralbase.Storage

open Neuralbase.Library
open Neuralbase.Consensus (Bytes)

/-! The transaction manager (`mvcc.rs`).  Threads interleave between the points
where they touch shared state: `begin` draws its timestamp and then registers it;
`commit` checks for conflicts, draws its timestamp, writes its batch and then
leaves, holding the commit serializer from the check to the end. -/

structure RowWrite where
  tableId : UInt32
  pk : Bytes
  value : Bytes
deriving DecidableEq

namespace RowWrite

def IsTo (write : RowWrite) (tableId : UInt32) (pk : Bytes) : Prop :=
  write.tableId = tableId ∧ write.pk = pk

instance (write : RowWrite) (tableId : UInt32) (pk : Bytes) : Decidable (write.IsTo tableId pk) :=
  inferInstanceAs (Decidable (_ ∧ _))

end RowWrite

inductive Phase where
  /-- `begin` has drawn the snapshot and not registered it yet. -/
  | drawn
  | active
  /-- `commit` holds the serializer and found no conflict. -/
  | checked
  | stamped (commitTs : HlcTimestamp)
  /-- The batch is written; the snapshot is still registered. -/
  | written
  | committed
  | conflicted
  /-- The batch could not be written; the snapshot stays registered. -/
  | failed
  | rolledBack
deriving DecidableEq

structure Transaction where
  id : Nat
  snapshotTs : HlcTimestamp
  writes : List RowWrite
  phase : Phase

namespace Transaction

def new (snapshotTs : HlcTimestamp) : Transaction where
  id := snapshotTs.toU64
  snapshotTs
  writes := []
  phase := .drawn

def write (tx : Transaction) (tableId : UInt32) (pk value : Bytes) : Transaction :=
  { tx with
    writes := tx.writes.filter (fun write => decide (¬ write.IsTo tableId pk)) ++
      [{ tableId, pk, value }] }

def readOwnWrite (tx : Transaction) (tableId : UInt32) (pk : Bytes) : Option Bytes :=
  (tx.writes.reverse.find? fun write => decide (write.IsTo tableId pk)).map RowWrite.value

end Transaction

/-- Names a call of `begin`. -/
abbrev TxnHandle := Nat

inductive TxnEvent where
  | began (t : TxnHandle) (snapshotTs : HlcTimestamp)
  | wrote (t : TxnHandle) (tableId : UInt32) (pk : Bytes)
  | read (t : TxnHandle) (snapshotTs : HlcTimestamp) (tableId : UInt32) (pk : Bytes)
      (result : Option Bytes)
  /-- The batch of `t` is in the store. -/
  | committed (t : TxnHandle) (snapshotTs commitTs : HlcTimestamp) (writes : List RowWrite)
  /-- `commit` returned a write conflict. -/
  | conflicted (t : TxnHandle) (snapshotTs : HlcTimestamp) (writes : List RowWrite)
deriving DecidableEq

structure TransactionManager where
  data : ColumnFamily
  clock : HlcTimestamp
  activeSnapshots : Finset Nat
  /-- Who holds the commit serializer. -/
  serializer : Option TxnHandle
  txns : TxnHandle → Option Transaction
  history : List TxnEvent

/-- What a thread does next.  Clock readings and the outcome of a disk write come
from outside. -/
inductive TxnAction where
  | beginTick (t : TxnHandle) (wall : Nat)
  | beginRegister (t : TxnHandle)
  | write (t : TxnHandle) (tableId : UInt32) (pk value : Bytes)
  | read (t : TxnHandle) (tableId : UInt32) (pk : Bytes)
  | commitCheck (t : TxnHandle)
  | commitTick (t : TxnHandle) (wall : Nat)
  | commitWrite (t : TxnHandle) (succeeds : Bool)
  | commitFinish (t : TxnHandle)
  | rollback (t : TxnHandle)
  | nextTimestamp (wall : Nat)
deriving DecidableEq

def putRows (data : ColumnFamily) (ts : HlcTimestamp) (writes : List RowWrite) : ColumnFamily :=
  writes.foldl (fun data write =>
    data.put (encodeVersionedKey write.tableId write.pk ts) write.value) data

namespace TransactionManager

def new (data : ColumnFamily) (clock : HlcTimestamp) : TransactionManager where
  data
  clock
  activeSnapshots := ∅
  serializer := none
  txns := fun _ => none
  history := []

def setTxn (m : TransactionManager) (t : TxnHandle) (tx : Transaction) : TransactionManager :=
  { m with txns := Function.update m.txns t (some tx) }

def record (m : TransactionManager) (event : TxnEvent) : TransactionManager :=
  { m with history := m.history ++ [event] }

def hasConflictingVersion (m : TransactionManager) (write : RowWrite) (snapshotTs : HlcTimestamp) : Bool :=
  (latestVisibleTsAny m.data write.tableId write.pk).any fun ts => decide (snapshotTs < ts)

def read (m : TransactionManager) (tx : Transaction) (tableId : UInt32) (pk : Bytes) : Option Bytes :=
  match tx.readOwnWrite tableId pk with
  | some value => some value
  | none => readLatest m.data tableId pk tx.snapshotTs

def removeSnapshot (m : TransactionManager) (id : Nat) : TransactionManager :=
  { m with activeSnapshots := m.activeSnapshots.erase id }

/-- The transaction of `t`, if it has come to `phase`. -/
def inPhase (m : TransactionManager) (t : TxnHandle) (phase : Phase) : Option Transaction :=
  (m.txns t).filter fun tx => decide (tx.phase = phase)

/-- The transaction of `t` and the commit timestamp it has drawn. -/
def stampedTxn (m : TransactionManager) (t : TxnHandle) : Option (Transaction × HlcTimestamp) :=
  (m.txns t).bind fun tx =>
    match tx.phase with
    | .stamped commitTs => some (tx, commitTs)
    | _ => none

/-- `commit` up to the conflict check. -/
def commitCheck (m : TransactionManager) (t : TxnHandle) (tx : Transaction) : TransactionManager :=
  if tx.writes.any fun write => m.hasConflictingVersion write tx.snapshotTs then
    ((m.removeSnapshot tx.id).setTxn t { tx with phase := .conflicted }).record
      (.conflicted t tx.snapshotTs tx.writes)
  else { m.setTxn t { tx with phase := .checked } with serializer := some t }

def commitWrite (m : TransactionManager) (t : TxnHandle) (tx : Transaction)
    (commitTs : HlcTimestamp) (succeeds : Bool) : TransactionManager :=
  if succeeds then
    ({ m with data := putRows m.data commitTs tx.writes }.setTxn t
      { tx with phase := .written }).record (.committed t tx.snapshotTs commitTs tx.writes)
  else { m.setTxn t { tx with phase := .failed } with serializer := none }

def exec (m : TransactionManager) : TxnAction → Option TransactionManager
  | .beginTick t wall =>
    if (m.txns t).isSome then none
    else
      let ts := advance m.clock wall
      some (({ m with clock := ts }.setTxn t (.new ts)).record (.began t ts))
  | .beginRegister t =>
    (m.inPhase t .drawn).map fun tx =>
      { m.setTxn t { tx with phase := .active } with
        activeSnapshots := insert tx.id m.activeSnapshots }
  | .write t tableId pk value =>
    (m.inPhase t .active).map fun tx =>
      (m.setTxn t (tx.write tableId pk value)).record (.wrote t tableId pk)
  | .read t tableId pk =>
    (m.inPhase t .active).map fun tx =>
      m.record (.read t tx.snapshotTs tableId pk (m.read tx tableId pk))
  | .commitCheck t =>
    if m.serializer.isSome then none
    else (m.inPhase t .active).map fun tx => m.commitCheck t tx
  | .commitTick t wall =>
    (m.inPhase t .checked).map fun tx =>
      let ts := advance m.clock wall
      { m with clock := ts }.setTxn t { tx with phase := .stamped ts }
  | .commitWrite t succeeds =>
    (m.stampedTxn t).map fun (tx, commitTs) => m.commitWrite t tx commitTs succeeds
  | .commitFinish t =>
    (m.inPhase t .written).map fun tx =>
      { (m.removeSnapshot tx.id).setTxn t { tx with phase := .committed } with
        serializer := none }
  | .rollback t =>
    (m.inPhase t .active).map fun tx =>
      (m.removeSnapshot tx.id).setTxn t { tx with phase := .rolledBack, writes := [] }
  | .nextTimestamp wall => some { m with clock := advance m.clock wall }

end TransactionManager

/-- A run whose every step is `allowed` in the state it is taken in. -/
inductive TxnRun (allowed : TransactionManager → TxnAction → Prop) (start : TransactionManager) :
    TransactionManager → Prop
  | start : TxnRun allowed start start
  | step {m next : TransactionManager} {a : TxnAction} : TxnRun allowed start m → allowed m a →
      m.exec a = some next → TxnRun allowed start next

end Neuralbase.Storage
