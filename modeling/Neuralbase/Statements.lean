import Neuralbase.Replicated.StateMachine
import Neuralbase.Storage.Executor

namespace Neuralbase

open Neuralbase.Library Neuralbase.Storage Neuralbase.Replicated
open Neuralbase.Consensus (Bytes LogEntry)

/-! Table statements as one server runs them (`server_parts/query.rs`): committed entries
through the replicated state machine, or, without a cluster, the storage executor and
direct changes of the catalog. -/

structure SqlNode where
  machine : ReplicatedSqlStateMachine
  /-- The transactions of the executor.  Its rows and its clock are those of `machine`. -/
  sessions : TransactionManager

inductive Statement where
  | replicated (entry : LogEntry) (faults : Faults)
  /-- The flags tell whether the engine takes a write; the server only warns if not. -/
  | createTable (schema : TableSchema) (registered : Bool)
  | dropTable (name : String) (unregistered cleared : Bool)
  | insert (call : TxnCall) (tableName : String) (pk : Bytes) (encode : TableSchema → Bytes)
  | update (call : TxnCall) (tableName : String) (assign : TableSchema → Bytes → Option Bytes)
  | delete (call : TxnCall) (tableName : String) (selects : Bytes → Bool)

/-- `clear_table_data`: delete all versioned rows of a table. -/
def clearTableData (db : Database) (tableId : UInt32) : Database :=
  db.writeBatch ((rawScanTableVersions (db .data) tableId).map fun version => deleteCf .data version.1)

namespace SqlNode

variable (codec : SchemaCodec)

def manager (node : SqlNode) : TransactionManager :=
  { node.sessions with data := node.machine.db .data, clock := node.machine.clock }

/-- The node after its transaction manager has moved to `m`. -/
def store (node : SqlNode) (m : TransactionManager) : SqlNode where
  machine := { node.machine with db := Function.update node.machine.db .data m.data, clock := m.clock }
  sessions := m

def createTable (node : SqlNode) (schema : TableSchema) (registered : Bool) : SqlNode :=
  { node with machine := { node.machine with
      catalog := node.machine.catalog.createTable codec schema
      db :=
        match codec.toVec schema with
        | some bytes =>
          if registered then node.machine.db.write (putCf .catalog (catalogKey codec schema.name) bytes)
          else node.machine.db
        | none => node.machine.db } }

def dropTable (node : SqlNode) (name : String) (unregistered cleared : Bool) : SqlNode :=
  let db :=
    if unregistered then node.machine.db.write (deleteCf .catalog (catalogKey codec name))
    else node.machine.db
  { node with machine := { node.machine with
      catalog := node.machine.catalog.dropTable codec name
      db := if cleared then clearTableData db (tableIdFor name) else db } }

def exec (node : SqlNode) : Statement → Option SqlNode
  | .replicated entry faults =>
    some { node with machine := (node.machine.applyLogEntry codec faults entry).1 }
  | .createTable schema registered => some (node.createTable codec schema registered)
  | .dropTable name unregistered cleared => some (node.dropTable codec name unregistered cleared)
  | .insert call tableName pk encode =>
    (insertRow codec node.machine.catalog node.manager call tableName pk encode).map
      fun result => node.store result.1
  | .update call tableName assign =>
    (updateRows codec node.machine.catalog node.manager call tableName assign).map
      fun result => node.store result.1
  | .delete call tableName selects =>
    (deleteRows codec node.machine.catalog node.manager call tableName selects).map
      fun result => node.store result.1

def scanTable (node : SqlNode) (tableName : String) (snapshotTs : HlcTimestamp) :
    Except ExecError (TableSchema × List (Bytes × Bytes)) :=
  match node.machine.catalog.getTable codec tableName with
  | none => .error (.tableNotFound tableName)
  | some schema => .ok (schema, Storage.scanTable (node.machine.db .data) (tableIdFor tableName) snapshotTs)

end SqlNode

def Replicated.ReplicatedMutation.table : ReplicatedMutation → String
  | .createTable schema => schema.name
  | .dropTable table _ | .insertRows table _ _ _ | .updateRows table _ _ _ | .deleteRows table _ _ _ =>
    table

def Statement.table : Statement → Option String
  | .replicated entry _ =>
    match ReplicatedMutation.decode entry.command with
    | .ok mutation => some mutation.table
    | .error _ => none
  | .createTable schema _ => some schema.name
  | .dropTable name _ _ | .insert _ name _ _ | .update _ name _ | .delete _ name _ => some name

end Neuralbase
