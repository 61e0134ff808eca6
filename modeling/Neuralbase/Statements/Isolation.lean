import Mathlib
import Neuralbase.Statements
import Neuralbase.Storage.Mvcc.Writes

namespace Neuralbase

open Neuralbase.Library Neuralbase.Storage Neuralbase.Replicated
open Neuralbase.Consensus (Bytes LogEntry)

/-! What statements on one table do to the rows of another.  All keys that a statement
touches start with the table id of the name in the statement, so the other table is
left alone unless both names hash to one id. -/

section Calls

variable {m : TransactionManager} {other tableId : UInt32} {call : TxnCall}

theorem insertRow_elsewhere {pk encoded : Bytes} {result : TransactionManager × Except ExecError Unit}
    (elsewhere : tableId ≠ other) (inserted : m.insertRow call tableId pk encoded = some result) :
    AgreeOn other m.data result.1.data :=
  (insertRow_adds inserted).agreeOn fun _ written => written ▸ elsewhere

theorem changeRows_elsewhere {change : Bytes → Option Bytes}
    {result : TransactionManager × Except ExecError Nat} (elsewhere : tableId ≠ other)
    (changed : m.changeRows call tableId change = some result) : AgreeOn other m.data result.1.data := by
  obtain ⟨_, adds⟩ := changeRows_adds changed
  exact adds.agreeOn fun _ ⟨table, _⟩ => table ▸ elsewhere

theorem withTable_elsewhere {codec : SchemaCodec} {catalog : InMemoryCatalog} {β : Type} {name : String}
    {run : TableSchema → UInt32 → Option (TransactionManager × Except ExecError β)}
    {result : TransactionManager × Except ExecError β} (ran : withTable codec catalog m name run = some result)
    (spares : ∀ schema, run schema (tableIdFor name) = some result → AgreeOn other m.data result.1.data) :
    AgreeOn other m.data result.1.data := by
  unfold withTable at ran
  split at ran
  · cases ran
    exact .refl
  · exact spares _ ran

end Calls

section Batches

variable {db : Database} {other : UInt32} {batch : WriteBatch}

/-- No operation on the rows of the table `other`. -/
def OpsElsewhere (other : UInt32) (batch : WriteBatch) : Prop :=
  ∀ op ∈ batch, op.cf = .data → hasTable other op.key = false

theorem OpsElsewhere.agreeOn (elsewhere : OpsElsewhere other batch) :
    AgreeOn other (db .data) (db.writeBatch batch .data) := by
  intro key starts
  refine Database.get_untouched ?_
  rintro ⟨op, inside, family, rfl⟩
  simp [elsewhere op inside family] at starts

theorem deletes_elsewhere {data : ColumnFamily} {tableId : UInt32} (apart : tableId ≠ other) :
    OpsElsewhere other ((rawScanTableVersions data tableId).map fun version => deleteCf .data version.1) := by
  intro op inside _
  obtain ⟨version, found, rfl⟩ := List.mem_map.mp inside
  have own := List.mem_takeWhile_imp found
  simp only [inTable, Bool.and_eq_true, decide_eq_true_eq] at own
  rw [Bool.eq_false_iff]
  intro starts
  exact apart (tableBytes_inj.mp (own.2.symm.trans (of_decide_eq_true starts)))

theorem puts_elsewhere {tableId : UInt32} {ts : HlcTimestamp} (apart : tableId ≠ other) {pk value : Bytes} :
    hasTable other (putCf .data (encodeVersionedKey tableId pk ts) value).key = false := by
  rw [Bool.eq_false_iff]
  exact fun starts => apart (hasTable_encode.mp starts)

end Batches

section Entries

variable {codec : SchemaCodec} {faults : Faults} {machine : ReplicatedSqlStateMachine}
  {entry : LogEntry} {other : String} {db : Database} {plan : Plan}

def Spares (codec : SchemaCodec) (other : String) : Effect → Prop
  | .writeBatch batch => OpsElsewhere (tableIdFor other) batch
  | .createTable schema => codec.lowercase schema.name ≠ codec.lowercase other
  | .dropTable table => codec.lowercase table ≠ codec.lowercase other
  | .observeCommitted _ => True

theorem mutationBatch_elsewhere {mutation : ReplicatedMutation} {batch : WriteBatch}
    (named : validateTableId mutation = .ok ()) (apart : tableIdFor mutation.table ≠ tableIdFor other)
    (built : mutationBatch codec faults db mutation = .ok batch) : OpsElsewhere (tableIdFor other) batch := by
  have derived : ∀ {table : String} {tableId : UInt32}, checkTableId table tableId = .ok () →
      tableId = tableIdFor table := by
    intro table tableId checked
    by_contra differs
    simp [checkTableId, differs] at checked
  cases mutation with
  | createTable schema =>
    simp only [mutationBatch] at built
    split at built
    · cases built
      intro op inside family
      cases List.mem_singleton.mp inside
      cases family
    · cases built
  | dropTable table tableId =>
    obtain ⟨versions, scanned, built⟩ := bind_eq_ok.mp built
    cases pure_eq_ok.mp built
    unfold scanVersions at scanned
    split at scanned
    · cases scanned
    cases scanned
    intro op inside family
    rcases List.mem_cons.mp inside with rfl | inside
    · cases family
    · exact deletes_elsewhere (derived named ▸ apart) op inside family
  | insertRows table tableId commitTs rows =>
    cases built
    intro op inside _
    obtain ⟨row, _, rfl⟩ := List.mem_map.mp inside
    exact puts_elsewhere (derived named ▸ apart)
  | updateRows table tableId commitTs rows =>
    cases built
    intro op inside _
    obtain ⟨row, _, rfl⟩ := List.mem_map.mp inside
    exact puts_elsewhere (derived named ▸ apart)
  | deleteRows table tableId commitTs primaryKeys =>
    cases built
    intro op inside _
    obtain ⟨key, _, rfl⟩ := List.mem_map.mp inside
    exact puts_elsewhere (derived named ▸ apart)

theorem memoryEffects_spare {mutation : ReplicatedMutation}
    (differs : codec.lowercase mutation.table ≠ codec.lowercase other) :
    ∀ effect ∈ memoryEffects mutation, Spares codec other effect := by
  cases mutation with
  | createTable schema =>
    intro effect inside
    cases List.mem_singleton.mp inside
    exact differs
  | dropTable table tableId =>
    intro effect inside
    cases List.mem_singleton.mp inside
    exact differs
  | insertRows _ _ _ _ => simp [memoryEffects, ReplicatedMutation.commitTs, Spares]
  | updateRows _ _ _ _ => simp [memoryEffects, ReplicatedMutation.commitTs, Spares]
  | deleteRows _ _ _ _ => simp [memoryEffects, ReplicatedMutation.commitTs, Spares]

theorem nothing_elsewhere {id : UInt32} : OpsElsewhere id [] := by
  simp [OpsElsewhere]

theorem metadata_elsewhere {id : UInt32} (key value : Bytes) : OpsElsewhere id [putCf .metadata key value] := by
  simp [OpsElsewhere, putCf]

theorem putApplyState_elsewhere {state : ReplicatedApplyState} {id : UInt32} {batch : WriteBatch}
    (elsewhere : OpsElsewhere id batch) : OpsElsewhere id (batch ++ [putApplyState state]) := by
  intro op inside family
  rcases List.mem_append.mp inside with kept | added
  · exact elsewhere op kept family
  · cases List.mem_singleton.mp added
    cases family

theorem planEntry_spares (planned : planEntry codec faults db entry = .ok plan)
    (apart : ∀ mutation, ReplicatedMutation.decode entry.command = .ok mutation →
      codec.lowercase mutation.table ≠ codec.lowercase other ∧ tableIdFor mutation.table ≠ tableIdFor other) :
    ∀ effect ∈ plan.1, Spares codec other effect := by
  obtain ⟨previous, _, planned⟩ := bind_eq_ok.mp planned
  split at planned
  · cases pure_eq_ok.mp planned
    simp
  split at planned
  · obtain ⟨mutation, _, planned⟩ := bind_eq_ok.mp planned
    obtain ⟨state, _, planned⟩ := bind_eq_ok.mp planned
    obtain ⟨encoded, _, planned⟩ := bind_eq_ok.mp planned
    cases pure_eq_ok.mp planned
    intro effect inside
    cases List.mem_singleton.mp inside
    exact putApplyState_elsewhere (metadata_elsewhere _ _)
  split at planned
  · cases pure_eq_ok.mp planned
    intro effect inside
    cases List.mem_singleton.mp inside
    exact putApplyState_elsewhere nothing_elsewhere
  · obtain ⟨mutation, decoded, planned⟩ := bind_eq_ok.mp planned
    obtain ⟨_, _, planned⟩ := bind_eq_ok.mp planned
    obtain ⟨_, named, planned⟩ := bind_eq_ok.mp planned
    obtain ⟨batch, built, planned⟩ := bind_eq_ok.mp planned
    cases pure_eq_ok.mp planned
    obtain ⟨differs, elsewhere⟩ := apart mutation (mapError_eq_ok.mp decoded)
    intro effect inside
    rcases List.mem_cons.mp inside with rfl | inside
    · exact putApplyState_elsewhere (mutationBatch_elsewhere named elsewhere built)
    · exact memoryEffects_spare differs effect inside

end Entries

section Machines

variable {codec : SchemaCodec} {faults : Faults} {machine next : ReplicatedSqlStateMachine}
  {entry : LogEntry} {other : String} {effects : List Effect}

structure Untouched (codec : SchemaCodec) (other : String)
    (before after : ReplicatedSqlStateMachine) : Prop where
  rows : AgreeOn (tableIdFor other) (before.db .data) (after.db .data)
  schema : after.catalog.getTable codec other = before.catalog.getTable codec other

theorem Untouched.refl : Untouched codec other machine machine := ⟨.refl, rfl⟩

theorem Untouched.trans {final : ReplicatedSqlStateMachine} (first : Untouched codec other machine next)
    (second : Untouched codec other next final) : Untouched codec other machine final :=
  ⟨first.rows.trans second.rows, second.schema.trans first.schema⟩

theorem getTable_createTable {catalog : InMemoryCatalog} {schema : TableSchema}
    (differs : codec.lowercase schema.name ≠ codec.lowercase other) :
    (catalog.createTable codec schema).getTable codec other = catalog.getTable codec other :=
  Function.update_of_ne (Ne.symm differs) _ _

theorem getTable_dropTable {catalog : InMemoryCatalog} {table : String}
    (differs : codec.lowercase table ≠ codec.lowercase other) :
    (catalog.dropTable codec table).getTable codec other = catalog.getTable codec other :=
  Function.update_of_ne (Ne.symm differs) _ _

theorem Untouched.perform {effect : Effect} (spares : Spares codec other effect)
    (performed : machine.perform codec faults effect = .ok next) : Untouched codec other machine next := by
  cases effect with
  | writeBatch batch =>
    simp only [ReplicatedSqlStateMachine.perform] at performed
    split at performed
    · cases performed
    · cases performed
      exact ⟨spares.agreeOn, rfl⟩
  | createTable schema =>
    cases performed
    exact ⟨.refl, getTable_createTable spares⟩
  | dropTable table =>
    cases performed
    exact ⟨.refl, getTable_dropTable spares⟩
  | observeCommitted committed =>
    cases performed
    exact ⟨.refl, rfl⟩

theorem Untouched.performAll (spare : ∀ effect ∈ effects, Spares codec other effect) :
    Untouched codec other machine (machine.performAll codec faults effects).1 := by
  induction effects generalizing machine with
  | nil => exact .refl
  | cons effect rest induction =>
    rw [ReplicatedSqlStateMachine.performAll]
    cases performed : machine.perform codec faults effect with
    | error error => exact .refl
    | ok next =>
      exact (Untouched.perform (spare effect List.mem_cons_self) performed).trans
        (induction fun later inside => spare later (List.mem_cons_of_mem _ inside))

theorem Untouched.applyLogEntry (apart : ∀ mutation, ReplicatedMutation.decode entry.command = .ok mutation →
      codec.lowercase mutation.table ≠ codec.lowercase other ∧ tableIdFor mutation.table ≠ tableIdFor other) :
    Untouched codec other machine (machine.applyLogEntry codec faults entry).1 := by
  unfold ReplicatedSqlStateMachine.applyLogEntry
  cases planned : planEntry codec faults machine.db entry with
  | error error => exact .refl
  | ok plan => exact .performAll (planEntry_spares planned apart)

end Machines

section Nodes

variable {codec : SchemaCodec} {node next final : SqlNode} {other : String} {statement : Statement}

def OnAnother (codec : SchemaCodec) (other : String) (statement : Statement) : Prop :=
  ∀ name ∈ statement.table, codec.lowercase name ≠ codec.lowercase other ∧ tableIdFor name ≠ tableIdFor other

theorem untouched_store {m : TransactionManager} (agree : AgreeOn (tableIdFor other) node.manager.data m.data) :
    Untouched codec other node.machine (node.store m).machine where
  rows := by
    simp only [SqlNode.store, Function.update_self]
    exact agree
  schema := rfl

theorem untouched_createTable {schema : TableSchema} {registered : Bool}
    (differs : codec.lowercase schema.name ≠ codec.lowercase other) :
    Untouched codec other node.machine (node.createTable codec schema registered).machine where
  rows := by
    have spared : ∀ bytes, AgreeOn (tableIdFor other) (node.machine.db .data)
        (node.machine.db.write (putCf .catalog (catalogKey codec schema.name) bytes) .data) :=
      fun bytes key _ => by simp [Database.get_write, putCf]
    cases serialized : codec.toVec schema with
    | none => simp only [SqlNode.createTable, serialized, AgreeOn.refl]
    | some bytes => cases registered <;> simp [SqlNode.createTable, serialized, AgreeOn.refl, spared]
  schema := getTable_createTable differs

theorem untouched_dropTable {name : String} {unregistered cleared : Bool}
    (differs : codec.lowercase name ≠ codec.lowercase other) (apart : tableIdFor name ≠ tableIdFor other) :
    Untouched codec other node.machine (node.dropTable codec name unregistered cleared).machine where
  rows := by
    have unregisters : AgreeOn (tableIdFor other) (node.machine.db .data)
        ((if unregistered then node.machine.db.write (deleteCf .catalog (catalogKey codec name))
          else node.machine.db) .data) := by
      split
      · exact fun key _ => by simp [Database.get_write, deleteCf]
      · exact .refl
    simp only [SqlNode.dropTable]
    split
    · exact unregisters.trans (deletes_elsewhere apart).agreeOn
    · exact unregisters
  schema := getTable_dropTable differs

theorem OnAnother.untouched (another : OnAnother codec other statement)
    (executed : node.exec codec statement = some next) : Untouched codec other node.machine next.machine := by
  cases statement with
  | replicated entry faults =>
    cases executed
    refine .applyLogEntry fun mutation decoded => another _ ?_
    simp [Statement.table, decoded]
  | createTable schema registered =>
    cases executed
    exact untouched_createTable (another _ rfl).1
  | dropTable name unregistered cleared =>
    cases executed
    exact untouched_dropTable (another _ rfl).1 (another _ rfl).2
  | insert call name pk encode =>
    obtain ⟨result, inserted, rfl⟩ := Option.map_eq_some_iff.mp executed
    exact untouched_store (withTable_elsewhere inserted fun _ =>
      insertRow_elsewhere (another _ rfl).2)
  | update call name assign =>
    obtain ⟨result, updated, rfl⟩ := Option.map_eq_some_iff.mp executed
    exact untouched_store (withTable_elsewhere updated fun _ =>
      changeRows_elsewhere (another _ rfl).2)
  | delete call name selects =>
    obtain ⟨result, deleted, rfl⟩ := Option.map_eq_some_iff.mp executed
    exact untouched_store (withTable_elsewhere deleted fun _ =>
      changeRows_elsewhere (another _ rfl).2)

theorem Untouched.scanTable {snapshotTs : HlcTimestamp} (untouched : Untouched codec other node.machine final.machine) :
    final.scanTable codec other snapshotTs = node.scanTable codec other snapshotTs := by
  rw [SqlNode.scanTable, SqlNode.scanTable, untouched.schema, untouched.rows.scanTable]

/-- Statements on one table never change what a scan of another table sees, if no name in
them has the table id of the other table. -/
theorem table_isolation (one : String) {statements : List Statement}
    (differs : codec.lowercase one ≠ codec.lowercase other)
    (ran : runs (SqlNode.exec codec) node statements = some final)
    (onOne : ∀ statement ∈ statements, ∀ name ∈ statement.table,
      codec.lowercase name = codec.lowercase one ∧ tableIdFor name ≠ tableIdFor other) (snapshotTs : HlcTimestamp) :
    final.scanTable codec other snapshotTs = node.scanTable codec other snapshotTs := by
  refine Untouched.scanTable ?_
  refine runs_invariant (fun reached => Untouched codec other node.machine reached.machine) ran .refl ?_
  intro reached statement inside next untouched executed
  have another : OnAnother codec other statement := fun name named =>
    have ⟨same, apart⟩ := onOne statement inside name named
    ⟨same ▸ differs, apart⟩
  exact untouched.trans (another.untouched executed)

def TablesIsolated (codec : SchemaCodec) : Prop :=
  ∀ (node final : SqlNode) (one other : String) (statements : List Statement),
    (node.machine.catalog.getTable codec one).isSome → (node.machine.catalog.getTable codec other).isSome →
    codec.lowercase one ≠ codec.lowercase other →
    runs (SqlNode.exec codec) node statements = some final →
    (∀ statement ∈ statements, ∀ name ∈ statement.table, codec.lowercase name = codec.lowercase one) →
    ∀ snapshotTs, final.scanTable codec other snapshotTs = node.scanTable codec other snapshotTs

section Schedules

def emptyNode : SqlNode where
  machine := { db := .empty, catalog := fun _ => none, clock := .zero }
  sessions := .new .empty .zero

def replicate (index : Nat) (mutation : ReplicatedMutation) : Statement :=
  .replicated { term := 1, index, command := mutation.encode.toOption.getD [] } noFaults

def textTable (name : String) : ReplicatedMutation :=
  .createTable { name, columns := [{ name := "id", dataType := "TEXT" }] }

def callOn (t : TxnHandle) : TxnCall where
  reader := t
  writer := t + 1
  readWall := 5
  beginWall := 5
  commitWall := 6
  succeeds := true

def collidingTables : List Statement :=
  [replicate 1 (textTable "costarring"), replicate 2 (textTable "liquid"),
    replicate 3 (.insertRows "liquid" (tableIdFor "liquid") 65536 [{ primaryKey := [1], value := [9] }])]

def dropFirst : List Statement := [replicate 4 (.dropTable "costarring" (tableIdFor "costarring"))]

def disturbs (codec : SchemaCodec) (one other : String) (statements : List Statement) (node : SqlNode) : Bool :=
  match runs (SqlNode.exec codec) node statements with
  | some final =>
    (node.machine.catalog.getTable codec one).isSome &&
      (node.machine.catalog.getTable codec other).isSome &&
      decide ((final.scanTable codec other .max).toOption ≠ (node.scanTable codec other .max).toOption)
  | none => false

theorem colliding_tables : ¬ TablesIsolated plainSchemas := by
  intro isolated
  have setup : ((runs (SqlNode.exec plainSchemas) emptyNode collidingTables).map
      (disturbs plainSchemas "costarring" "liquid" dropFirst)) = some true := by
    decide +kernel
  obtain ⟨node, _, disturbed⟩ := Option.map_eq_some_iff.mp setup
  unfold disturbs at disturbed
  split at disturbed
  · rename_i final ran
    simp only [Bool.and_eq_true, decide_eq_true_eq] at disturbed
    obtain ⟨⟨first, second⟩, differs⟩ := disturbed
    refine differs (congrArg _ (isolated node final "costarring" "liquid" dropFirst first second
      (by decide +kernel) ran ?_ .max))
    decide +kernel
  · cases disturbed

def separateTables : List Statement :=
  [replicate 1 (textTable "accounts"), replicate 2 (textTable "orders"),
    replicate 3 (.insertRows "orders" (tableIdFor "orders") 65536 [{ primaryKey := [1], value := [5] }])]

def accountStatements : List Statement :=
  [replicate 4 (.insertRows "accounts" (tableIdFor "accounts") 65537 [{ primaryKey := [1], value := [9] }]),
    .insert (callOn 0) "Accounts" [2] fun _ => [8],
    .update (callOn 2) "accounts" fun _ value => if value = [9] then some [7] else none,
    .delete (callOn 4) "accounts" fun value => value = [7],
    .dropTable "accounts" true true,
    .createTable { name := "accounts", columns := [] } true]

theorem table_isolation_accounts : ∃ node final, runs (SqlNode.exec plainSchemas) emptyNode separateTables = some node ∧
      runs (SqlNode.exec plainSchemas) node accountStatements = some final ∧
      final.scanTable plainSchemas "orders" .max = node.scanTable plainSchemas "orders" .max := by
  have setup : ((runs (SqlNode.exec plainSchemas) emptyNode separateTables).bind
      fun node => runs (SqlNode.exec plainSchemas) node accountStatements).isSome := by
    decide +kernel
  obtain ⟨final, both⟩ := Option.isSome_iff_exists.mp setup
  obtain ⟨node, first, second⟩ := Option.bind_eq_some_iff.mp both
  refine ⟨node, final, first, second, table_isolation "accounts" (by decide +kernel) second ?_ .max⟩
  decide +kernel

end Schedules

end Nodes

end Neuralbase
