import Neuralbase.Catalog
import Neuralbase.Library.Machine
import Neuralbase.Storage.Mvcc

namespace Neuralbase.Storage

open Neuralbase.Library
open Neuralbase.Consensus (Bytes)

/-! The storage executor (`storage_executor.rs`): statements on one table, each in
transactions of its own.  The row codec, the assignments of an `UPDATE` and the
predicate of a statement enter as functions on stored values. -/

def tableIdFor (name : String) : UInt32 :=
  (utf8 name).foldl (fun hash byte => (hash ^^^ byte.toUInt32) * 16777619) 2166136261

inductive ExecError where
  | tableNotFound (name : String)
  | storage
deriving DecidableEq

/-- What a statement meets outside: the handles of its transactions, the clock
readings, and whether the disk takes its batch. -/
structure TxnCall where
  reader : TxnHandle
  writer : TxnHandle
  readWall : Nat
  beginWall : Nat
  commitWall : Nat
  succeeds : Bool

namespace TransactionManager

def readRows (m : TransactionManager) (call : TxnCall) (tableId : UInt32) :
    Option (TransactionManager × List (Bytes × Bytes)) := do
  let opened ← runs exec m [.beginTick call.reader call.readWall, .beginRegister call.reader]
  let tx ← opened.txns call.reader
  let closed ← opened.exec (.rollback call.reader)
  pure (closed, scanTable opened.data tableId tx.snapshotTs)

/-- `begin` and the buffered writes of a transaction. -/
def openWrites (call : TxnCall) (tableId : UInt32) (rows : List (Bytes × Bytes)) : List TxnAction :=
  [.beginTick call.writer call.beginWall, .beginRegister call.writer] ++
    rows.map fun row => .write call.writer tableId row.1 row.2

/-- `commit`, which may find a conflict or fail to write. -/
def commitTxn (m : TransactionManager) (call : TxnCall) :
    Option (TransactionManager × Except ExecError Unit) := do
  let checked ← m.exec (.commitCheck call.writer)
  if (checked.inPhase call.writer .conflicted).isSome then pure (checked, .error .storage)
  else
    let stored ← runs exec checked
      [.commitTick call.writer call.commitWall, .commitWrite call.writer call.succeeds]
    if call.succeeds then
      let finished ← stored.exec (.commitFinish call.writer)
      pure (finished, .ok ())
    else pure (stored, .error .storage)

def insertRow (m : TransactionManager) (call : TxnCall) (tableId : UInt32) (pk encoded : Bytes) :
    Option (TransactionManager × Except ExecError Unit) := do
  let buffered ← runs exec m (openWrites call tableId [(pk, encoded)])
  buffered.commitTxn call

/-- Scan, choose new values for some rows, and write those in one transaction.  An
`UPDATE` chooses the row with its assignments, a `DELETE` the empty tombstone. -/
def changeRows (m : TransactionManager) (call : TxnCall) (tableId : UInt32)
    (change : Bytes → Option Bytes) : Option (TransactionManager × Except ExecError Nat) := do
  let (closed, rows) ← m.readRows call tableId
  let changed := rows.filterMap fun row => (change row.2).map fun value => (row.1, value)
  let buffered ← runs exec closed (openWrites call tableId changed)
  if changed = [] then
    let released ← buffered.exec (.rollback call.writer)
    pure (released, .ok 0)
  else
    let (finished, committed) ← buffered.commitTxn call
    pure (finished, committed.map fun _ => changed.length)

end TransactionManager

section Statements

variable (codec : SchemaCodec) (catalog : InMemoryCatalog)

def withTable {α β : Type} (m : α) (tableName : String)
    (run : TableSchema → UInt32 → Option (α × Except ExecError β)) : Option (α × Except ExecError β) :=
  match catalog.getTable codec tableName with
  | none => some (m, .error (.tableNotFound tableName))
  | some schema => run schema (tableIdFor tableName)

def insertRow (m : TransactionManager) (call : TxnCall) (tableName : String) (pk : Bytes)
    (encode : TableSchema → Bytes) : Option (TransactionManager × Except ExecError Unit) :=
  withTable codec catalog m tableName fun schema tableId =>
    m.insertRow call tableId pk (encode schema)

def updateRows (m : TransactionManager) (call : TxnCall) (tableName : String)
    (assign : TableSchema → Bytes → Option Bytes) : Option (TransactionManager × Except ExecError Nat) :=
  withTable codec catalog m tableName fun schema tableId => m.changeRows call tableId (assign schema)

def deleteRows (m : TransactionManager) (call : TxnCall) (tableName : String) (selects : Bytes → Bool) :
    Option (TransactionManager × Except ExecError Nat) :=
  withTable codec catalog m tableName fun _ tableId =>
    m.changeRows call tableId fun value => if selects value then some [] else none

end Statements

end Neuralbase.Storage
