import Neuralbase.Replicated.ExactlyOnce
import Neuralbase.Statements.Isolation
import Neuralbase.Storage.Lookup

namespace Neuralbase

open Neuralbase.Library Neuralbase.Storage Neuralbase.Replicated
open Neuralbase.Consensus (Bytes LogEntry)

/-! Tables that are dropped and created again.  Rows are found by a hash of the table's name,
so a table that comes back under its old name meets whatever is left under that hash. -/

section Rows

variable {data after : ColumnFamily} {tableId : UInt32} {pk key value : Bytes}

def HasRow (data : ColumnFamily) (tableId : UInt32) (pk : Bytes) : Prop :=
  ∃ entry ∈ data.entries, isVersionOf tableId pk entry.1 = true ∧ entry.2 ≠ []

instance : Decidable (HasRow data tableId pk) := inferInstanceAs (Decidable (∃ entry ∈ _, _))

theorem hasRow_iff : HasRow data tableId pk ↔
    ∃ key value, data.get key = some value ∧ isVersionOf tableId pk key = true ∧ value ≠ [] := by
  constructor
  · rintro ⟨⟨key, value⟩, inside, version, live⟩
    exact ⟨key, value, SortedMap.mem_entries.mp inside, version, live⟩
  · rintro ⟨key, value, found, version, live⟩
    exact ⟨(key, value), SortedMap.mem_entries.mpr found, version, live⟩

theorem hasRow_of_scan {ts : HlcTimestamp} (stored : Versioned data)
    (inside : (pk, value) ∈ scanTable data tableId ts) (live : value ≠ []) : HasRow data tableId pk := by
  obtain ⟨stamp, _, version⟩ := version_of_scan stored inside
  obtain ⟨fits, _⟩ := versionsOf_ne_none.mp (by rw [version]; simp)
  rw [versionsOf, if_pos fits] at version
  exact hasRow_iff.mpr ⟨_, value, version, isVersionOf_iff.mpr ⟨stamp, fits, rfl⟩, live⟩

theorem eq_of_isVersionOf {other : UInt32} {row : Bytes} {ts : HlcTimestamp}
    (version : isVersionOf tableId pk (encodeVersionedKey other row ts) = true) : other = tableId ∧ row = pk := by
  obtain ⟨stamp, _, same⟩ := isVersionOf_iff.mp version
  have primary := congrArg decodePkFromKey same
  rw [decodePkFromKey_encode, decodePkFromKey_encode] at primary
  have table : hasTable tableId (encodeVersionedKey other row ts) = true := same ▸ hasTable_encode.mpr rfl
  exact ⟨hasTable_encode.mp table, Option.some.inj primary⟩

theorem hasTable_of_isVersionOf (version : isVersionOf tableId pk key = true) : hasTable tableId key = true := by
  obtain ⟨stamp, _, rfl⟩ := isVersionOf_iff.mp version
  exact hasTable_encode.mpr rfl

theorem long_key {ts : HlcTimestamp} : 12 ≤ (encodeVersionedKey tableId pk ts).length := by
  simp [encodeVersionedKey, encodeKeyPrefix, HlcTimestamp.toBytes]
  omega

theorem versioned_adds {allowed : RowWrite → Prop} (stored : Versioned data) (adds : Adds allowed data after) :
    Versioned after := by
  intro key value found
  rcases adds key with same | ⟨write, ts, _, rfl, _⟩
  · exact stored key value (same ▸ found)
  · exact long_key

theorem hasRow_adds {allowed : RowWrite → Prop} (adds : Adds allowed data after) (has : HasRow after tableId pk) :
    HasRow data tableId pk ∨ ∃ value, value ≠ [] ∧ allowed { tableId, pk, value } := by
  obtain ⟨key, value, found, version, live⟩ := hasRow_iff.mp has
  rcases adds key with same | ⟨write, ts, permitted, rfl, written⟩
  · exact .inl (hasRow_iff.mpr ⟨key, value, same ▸ found, version, live⟩)
  · obtain ⟨rfl, rfl⟩ := eq_of_isVersionOf version
    cases found.symm.trans written
    exact .inr ⟨_, live, permitted⟩

theorem adds_batch {db : Database} {batch : WriteBatch} {allowed : RowWrite → Prop}
    (puts : ∀ op ∈ batch, op.cf = .data → ∃ write ts, allowed write ∧
      op.key = encodeVersionedKey write.tableId write.pk ts ∧ op.value = some write.value) :
    Adds allowed (db .data) (db.writeBatch batch .data) := by
  intro key
  by_cases touched : Database.Touches batch .data key
  · obtain ⟨op, inside, family, rfl, left⟩ := Database.get_touched touched
    obtain ⟨write, ts, permitted, here, value⟩ := puts op inside family
    exact .inr ⟨write, ts, permitted, here, (left db).trans value⟩
  · exact .inl (Database.get_untouched touched)

theorem get_cleared {db : Database} {batch : WriteBatch} (stored : Versioned (db .data))
    (deletes : ∀ op, op ∈ batch ∧ op.cf = .data ↔
      ∃ version ∈ rawScanTableVersions (db .data) tableId, op = deleteCf .data version.1) :
    (db.writeBatch batch .data).get key =
      if hasTable tableId key = true then none else (db .data).get key := by
  by_cases touched : Database.Touches batch .data key
  · obtain ⟨op, inside, family, rfl, left⟩ := Database.get_touched touched
    obtain ⟨version, found, rfl⟩ := (deletes op).mp ⟨inside, family⟩
    rw [rawScanTableVersions_long stored] at found
    exact (left db).trans (if_pos (List.mem_filter.mp found).2).symm
  · rw [Database.get_untouched touched]
    split
    · rename_i table
      by_contra found
      obtain ⟨value, held⟩ := Option.ne_none_iff_exists'.mp found
      have raw : (key, value) ∈ rawScanTableVersions (db .data) tableId := by
        rw [rawScanTableVersions_long stored]
        exact List.mem_filter.mpr ⟨SortedMap.mem_entries.mpr held, table⟩
      obtain ⟨inside, family⟩ := (deletes _).mpr ⟨_, raw, rfl⟩
      exact touched ⟨_, inside, family, rfl⟩
    · rfl

end Rows

/-- What a statement does to the tables, apart from rows that its own scan has seen. -/
inductive TableChange where
  | created (schema : TableSchema)
  | dropped (table : String) (cleared : Bool)
  | inserted (table : String) (primaryKeys : List Bytes)
  | updated (table : String) (primaryKeys : List Bytes)

def Replicated.ReplicatedMutation.change : ReplicatedMutation → Option TableChange
  | .createTable schema => some (.created schema)
  | .dropTable table _ => some (.dropped table true)
  | .insertRows table _ _ rows => some (.inserted table (rows.map ReplicatedRowWrite.primaryKey))
  | .updateRows table _ _ rows => some (.updated table (rows.map ReplicatedRowWrite.primaryKey))
  | .deleteRows .. => none

def appliedMutation (entry : LogEntry) :
    Except ReplicatedSqlApplyError ReplicatedApplyOutcome → Option ReplicatedMutation
  | .ok (.applied _ _ _) =>
    if isReplicatedIdentityMutation entry.command then none
    else (ReplicatedMutation.decode entry.command).toOption
  | _ => none

def Statement.change (codec : SchemaCodec) (node : SqlNode) : Statement → Option TableChange
  | .replicated entry faults =>
    (appliedMutation entry (node.machine.applyLogEntry codec faults entry).2).bind ReplicatedMutation.change
  | .createTable schema _ => some (.created schema)
  | .dropTable name _ cleared => some (.dropped name cleared)
  | .insert _ tableName pk _ =>
    (node.machine.catalog.getTable codec tableName).map fun _ => .inserted tableName [pk]
  | .update .. | .delete .. => none

namespace TableChange

def catalog (codec : SchemaCodec) (catalog : InMemoryCatalog) : Option TableChange → InMemoryCatalog
  | some (.created schema) => catalog.createTable codec schema
  | some (.dropped table _) => catalog.dropTable codec table
  | _ => catalog

def rows : Option TableChange → List (UInt32 × Bytes)
  | some (.inserted table primaryKeys) | some (.updated table primaryKeys) =>
    primaryKeys.map fun pk => (tableIdFor table, pk)
  | _ => []

def created? : TableChange → Option TableSchema
  | .created schema => some schema
  | _ => none

def dropped? : TableChange → Option String
  | .dropped table _ => some table
  | _ => none

structure Made (codec : SchemaCodec) (change : Option TableChange)
    (before after : ReplicatedSqlStateMachine) : Prop where
  catalog : after.catalog = TableChange.catalog codec before.catalog change
  stored : Versioned (after.db .data)
  rows : ∀ id pk, HasRow (after.db .data) id pk → HasRow (before.db .data) id pk ∨ (id, pk) ∈ rows change
  created : ∀ schema, change = some (.created schema) → after.db .data = before.db .data
  cleared : ∀ table, change = some (.dropped table true) → ∀ pk, ¬ HasRow (after.db .data) (tableIdFor table) pk

end TableChange

section Entries

variable {codec : SchemaCodec} {faults : Faults} {machine : ReplicatedSqlStateMachine} {entry : LogEntry}
  {mutation : ReplicatedMutation} {sessions : TransactionManager}

theorem TableChange.Made.nothing {after : ReplicatedSqlStateMachine} (stored : Versioned (machine.db .data))
    (data : after.db .data = machine.db .data) (catalog : after.catalog = machine.catalog) :
    Made codec none machine after where
  catalog := catalog
  stored := data ▸ stored
  rows _ _ has := .inl (data ▸ has)
  created _ same := nomatch same
  cleared _ same := nomatch same

theorem applyLogEntry_mutation : (appliedMutation entry (machine.applyLogEntry codec faults entry).2 = none ∧
      (machine.applyLogEntry codec faults entry).1.db .data = machine.db .data ∧
      (machine.applyLogEntry codec faults entry).1.catalog = machine.catalog) ∨
    ∃ mutation batch, appliedMutation entry (machine.applyLogEntry codec faults entry).2 = some mutation ∧
      validateTableId mutation = .ok () ∧ mutationBatch codec noFaults machine.db mutation = .ok batch ∧
      (machine.applyLogEntry codec faults entry).1.db .data = machine.db.writeBatch batch .data ∧
      (machine.applyLogEntry codec faults entry).1.catalog =
        TableChange.catalog codec machine.catalog mutation.change := by
  rcases ran : machine.applyLogEntry codec faults entry with ⟨after, returned⟩
  cases returned with
  | error error =>
    have same := @ReplicatedSqlStateMachine.unchanged_of_error codec faults machine entry error (by rw [ran])
    rw [ran] at same
    exact .inl ⟨rfl, by rw [same], by rw [same]⟩
  | ok outcome =>
    have applied := ReplicatedSqlStateMachine.applyLogEntry_noFaults ran
    cases planned : planEntry codec noFaults machine.db entry with
    | error reason =>
      rw [ReplicatedSqlStateMachine.applyLogEntry_refused planned] at applied
      cases applied
    | ok plan =>
      obtain ⟨previous, _, reads⟩ := bind_eq_ok.mp planned
      split_ifs at reads with old identity sql
      · cases pure_eq_ok.mp reads
        rw [ReplicatedSqlStateMachine.applyLogEntry_stale planned] at applied
        cases applied
        exact .inl ⟨rfl, rfl, rfl⟩
      · obtain ⟨change, _, reads⟩ := bind_eq_ok.mp reads
        obtain ⟨state, _, reads⟩ := bind_eq_ok.mp reads
        obtain ⟨encoded, _, reads⟩ := bind_eq_ok.mp reads
        cases pure_eq_ok.mp reads
        obtain ⟨durable, served, same⟩ :=
          ReplicatedSqlStateMachine.applyLogEntry_writes planned (by simp)
        rw [applied] at durable served same
        cases same
        refine .inl ⟨by simp [appliedMutation, identity], ?_, served⟩
        rw [durable]
        exact Database.writeBatch_spared (by simp [putCf, putApplyState])
      · obtain ⟨mutation, decoded, reads⟩ := bind_eq_ok.mp reads
        obtain ⟨_, _, reads⟩ := bind_eq_ok.mp reads
        obtain ⟨_, named, reads⟩ := bind_eq_ok.mp reads
        obtain ⟨batch, built, reads⟩ := bind_eq_ok.mp reads
        cases pure_eq_ok.mp reads
        obtain ⟨durable, served, same⟩ :=
          ReplicatedSqlStateMachine.applyLogEntry_writes planned (memoryEffects_inMemory mutation)
        rw [applied] at durable served same
        cases same
        have known : ReplicatedMutation.decode entry.command = .ok mutation := mapError_eq_ok.mp decoded
        refine .inr ⟨mutation, batch, by simp [appliedMutation, identity, known, Except.toOption], named,
          built, ?_, ?_⟩
        · rw [durable, Database.writeBatch_append]
          exact Database.writeBatch_spared (by simp [putCf, putApplyState])
        · rw [served]
          cases mutation <;> rfl
      · cases pure_eq_ok.mp reads
        obtain ⟨durable, served, same⟩ :=
          ReplicatedSqlStateMachine.applyLogEntry_writes planned (by simp)
        rw [applied] at durable served same
        cases same
        refine .inl ⟨rfl, ?_, served⟩
        rw [durable]
        exact Database.writeBatch_spared (by simp [putCf, putApplyState])

theorem tableId_of_check {table : String} {tableId : UInt32} (checked : checkTableId table tableId = .ok ()) :
    tableId = tableIdFor table := by
  by_contra differs
  simp [checkTableId, differs] at checked

theorem adds_rows {db : Database} {id : UInt32} {commitTs : Nat} {rows : List ReplicatedRowWrite} :
    Adds (fun write => write.tableId = id ∧ write.pk ∈ rows.map ReplicatedRowWrite.primaryKey)
      (db .data) (db.writeBatch (Replicated.putRows id commitTs rows) .data) := by
  refine adds_batch fun op inside _ => ?_
  obtain ⟨row, member, rfl⟩ := List.mem_map.mp inside
  exact ⟨⟨id, row.primaryKey, row.value⟩, .fromU64 commitTs, ⟨rfl, List.mem_map_of_mem member⟩, rfl, rfl⟩

theorem made_rows {after : ReplicatedSqlStateMachine} {change : Option TableChange}
    {allowed : RowWrite → Prop} (stored : Versioned (machine.db .data))
    (catalog : after.catalog = TableChange.catalog codec machine.catalog change)
    (adds : Adds allowed (machine.db .data) (after.db .data))
    (named : ∀ write, allowed write → write.value ≠ [] → HasRow (machine.db .data) write.tableId write.pk ∨
      (write.tableId, write.pk) ∈ TableChange.rows change)
    (only : ∀ schema, change ≠ some (.created schema)) (kept : ∀ table, change ≠ some (.dropped table true)) :
    TableChange.Made codec change machine after where
  catalog := catalog
  stored := versioned_adds stored adds
  rows id pk has := by
    rcases hasRow_adds adds has with before | ⟨value, live, permitted⟩
    · exact .inl before
    · exact named { tableId := id, pk, value } permitted live
  created schema same := absurd same (only schema)
  cleared table same := absurd same (kept table)

theorem made_cleared {after : ReplicatedSqlStateMachine} {table : String} {cleared : Bool}
    (stored : Versioned (machine.db .data))
    (catalog : after.catalog = machine.catalog.dropTable codec table)
    (emptied : ∀ key, (after.db .data).get key =
      if hasTable (tableIdFor table) key = true then none else (machine.db .data).get key) :
    TableChange.Made codec (some (.dropped table cleared)) machine after where
  catalog := catalog
  stored key value found := by
    rw [emptied] at found
    split at found
    · cases found
    · exact stored key value found
  rows id pk has := by
    obtain ⟨key, value, found, version, live⟩ := hasRow_iff.mp has
    rw [emptied] at found
    split at found
    · cases found
    · exact .inl (hasRow_iff.mpr ⟨key, value, found, version, live⟩)
  created _ same := nomatch same
  cleared other same pk has := by
    cases same
    obtain ⟨key, value, found, version, _⟩ := hasRow_iff.mp has
    rw [emptied, if_pos (hasTable_of_isVersionOf version)] at found
    cases found

theorem made_mutation {after : ReplicatedSqlStateMachine} {batch : WriteBatch}
    (stored : Versioned (machine.db .data)) (named : validateTableId mutation = .ok ())
    (built : mutationBatch codec noFaults machine.db mutation = .ok batch)
    (data : after.db .data = machine.db.writeBatch batch .data)
    (catalog : after.catalog = TableChange.catalog codec machine.catalog mutation.change) :
    TableChange.Made codec mutation.change machine after := by
  cases mutation with
  | createTable schema =>
    have same : after.db .data = machine.db .data := by
      rw [data]
      refine Database.writeBatch_spared ?_
      simp only [mutationBatch] at built
      split at built
      · cases built
        simp [putCf]
      · cases built
    exact
      { catalog
        stored := same ▸ stored
        rows := fun _ _ has => .inl (same ▸ has)
        created := fun _ _ => same
        cleared := fun _ other => by cases other }
  | dropTable table tableId =>
    obtain ⟨versions, scanned, built⟩ := bind_eq_ok.mp built
    cases pure_eq_ok.mp built
    cases scanned
    cases tableId_of_check named
    refine made_cleared stored catalog fun key => ?_
    rw [data]
    refine get_cleared stored fun op => ?_
    simp only [List.mem_cons, List.mem_map]
    constructor
    · rintro ⟨rfl | ⟨version, found, rfl⟩, family⟩
      · cases family
      · exact ⟨version, found, rfl⟩
    · rintro ⟨version, found, rfl⟩
      exact ⟨.inr ⟨version, found, rfl⟩, rfl⟩
  | insertRows table tableId commitTs rows =>
    cases built
    cases tableId_of_check named
    refine made_rows stored catalog (data ▸ adds_rows) (fun write kept _ => .inr ?_)
      (by rintro _ ⟨⟩) (by rintro _ ⟨⟩)
    exact List.mem_map.mpr ⟨write.pk, kept.2, by rw [kept.1]⟩
  | updateRows table tableId commitTs rows =>
    cases built
    cases tableId_of_check named
    refine made_rows stored catalog (data ▸ adds_rows) (fun write kept _ => .inr ?_)
      (by rintro _ ⟨⟩) (by rintro _ ⟨⟩)
    exact List.mem_map.mpr ⟨write.pk, kept.2, by rw [kept.1]⟩
  | deleteRows table tableId commitTs primaryKeys =>
    cases built
    have tombstones : Adds (fun write => write.value = []) (machine.db .data) (after.db .data) := by
      rw [data]
      refine adds_batch fun op inside _ => ?_
      obtain ⟨pk, _, rfl⟩ := List.mem_map.mp inside
      exact ⟨⟨tableId, pk, []⟩, .fromU64 commitTs, rfl, rfl, rfl⟩
    exact made_rows stored catalog tombstones (fun write empty live => absurd empty live)
      (by rintro _ ⟨⟩) (by rintro _ ⟨⟩)

theorem TableChange.Made.applyLogEntry (stored : Versioned (machine.db .data)) :
    Made codec (Statement.change codec ⟨machine, sessions⟩ (.replicated entry faults)) machine
      (machine.applyLogEntry codec faults entry).1 := by
  simp only [Statement.change]
  rcases @applyLogEntry_mutation codec faults machine entry with
    ⟨unapplied, data, catalog⟩ | ⟨mutation, batch, applied, named, built, data, catalog⟩
  · rw [unapplied]
    exact .nothing stored data catalog
  · rw [applied]
    exact made_mutation stored named built data catalog

end Entries

/-- An UPDATE passes over rows that it cannot decode, and tombstones with them. -/
def Statement.SkipsTombstones : Statement → Prop
  | .update _ _ assign => ∀ schema, assign schema [] = none
  | _ => True

section Nodes

variable {codec : SchemaCodec} {node next : SqlNode} {statement : Statement}

theorem data_store {m : TransactionManager} : (node.store m).machine.db .data = m.data := by
  simp only [SqlNode.store, Function.update_self]

theorem made_createTable {schema : TableSchema} {registered : Bool} (stored : Versioned (node.machine.db .data)) :
    TableChange.Made codec (some (.created schema)) node.machine
      (node.createTable codec schema registered).machine := by
  have same : (node.createTable codec schema registered).machine.db .data = node.machine.db .data := by
    simp only [SqlNode.createTable]
    cases codec.toVec schema with
    | none => rfl
    | some bytes =>
      cases registered with
      | true => simp [Database.write, putCf]
      | false => rfl
  exact
    { catalog := rfl
      stored := same ▸ stored
      rows := fun _ _ has => .inl (same ▸ has)
      created := fun _ _ => same
      cleared := fun _ other => by cases other }

theorem made_dropTable {name : String} {unregistered cleared : Bool} (stored : Versioned (node.machine.db .data)) :
    TableChange.Made codec (some (.dropped name cleared)) node.machine
      (node.dropTable codec name unregistered cleared).machine := by
  generalize unregisters : (if unregistered then
    node.machine.db.write (deleteCf .catalog (catalogKey codec name)) else node.machine.db) = db
  have data : db .data = node.machine.db .data := by
    rw [← unregisters]
    split
    · exact Function.update_of_ne (by simp [deleteCf]) _ _
    · rfl
  cases cleared with
  | true =>
    refine made_cleared stored rfl fun key => ?_
    simp only [SqlNode.dropTable, unregisters, if_pos, clearTableData]
    rw [← data]
    refine get_cleared (data ▸ stored) fun op => ?_
    rw [List.mem_map]
    constructor
    · rintro ⟨⟨version, found, rfl⟩, _⟩
      exact ⟨version, found, rfl⟩
    · rintro ⟨version, found, rfl⟩
      exact ⟨⟨version, found, rfl⟩, rfl⟩
  | false =>
    have same : (node.dropTable codec name unregistered false).machine.db .data = node.machine.db .data := by
      simp only [SqlNode.dropTable, unregisters]
      exact data
    exact
      { catalog := rfl
        stored := same ▸ stored
        rows := fun _ _ has => .inl (same ▸ has)
        created := fun _ other => by cases other
        cleared := fun _ other => by cases other }

theorem made_changeRows {name : String} {call : TxnCall} {change : TableSchema → Bytes → Option Bytes}
    {result : TransactionManager × Except ExecError Nat} (stored : Versioned (node.machine.db .data))
    (skips : ∀ schema value, change schema [] = some value → value = [])
    (ran : withTable codec node.machine.catalog node.manager name (fun schema tableId =>
      node.manager.changeRows call tableId (change schema)) = some result) :
    TableChange.Made codec none node.machine (node.store result.1).machine := by
  unfold withTable at ran
  split at ran
  · cases ran
    exact .nothing stored data_store rfl
  · rename_i schema found
    obtain ⟨snapshotTs, adds⟩ := changeRows_adds ran
    rw [← @data_store node] at adds
    refine made_rows stored rfl adds (fun write made live => .inl ?_) nofun nofun
    obtain ⟨id, ⟨pk, value⟩, seen, primary, chosen⟩ := made
    have kept : value ≠ [] := by
      rintro rfl
      exact live (skips schema _ chosen)
    rw [id, ← primary]
    exact hasRow_of_scan stored seen kept

theorem exec_made (stored : Versioned (node.machine.db .data)) (skips : statement.SkipsTombstones)
    (executed : node.exec codec statement = some next) :
    TableChange.Made codec (statement.change codec node) node.machine next.machine := by
  cases statement with
  | replicated entry faults =>
    cases executed
    exact .applyLogEntry stored
  | createTable schema registered =>
    cases executed
    exact made_createTable stored
  | dropTable name unregistered cleared =>
    cases executed
    exact made_dropTable stored
  | insert call name pk encode =>
    obtain ⟨result, inserted, rfl⟩ := Option.map_eq_some_iff.mp executed
    simp only [insertRow, withTable] at inserted
    simp only [Statement.change]
    split at inserted
    · rename_i missing
      cases inserted
      rw [missing]
      exact .nothing stored data_store rfl
    · rename_i schema found
      have adds := insertRow_adds inserted
      rw [← @data_store node result.1] at adds
      rw [found]
      refine made_rows stored rfl adds (fun write same _ => .inr ?_) nofun nofun
      subst same
      exact List.mem_singleton_self _
  | update call name assign =>
    obtain ⟨result, updated, rfl⟩ := Option.map_eq_some_iff.mp executed
    refine made_changeRows stored (fun schema value chosen => ?_) updated
    rw [skips schema] at chosen
    cases chosen
  | delete call name selects =>
    obtain ⟨result, deleted, rfl⟩ := Option.map_eq_some_iff.mp executed
    refine @made_changeRows codec node name call (fun _ value => if selects value then some [] else none)
      result stored (fun _ value chosen => ?_) deleted
    split at chosen
    · exact (Option.some.inj chosen).symm
    · cases chosen

end Nodes

section Semantics

variable (codec : SchemaCodec) (n : String)

/-- A CREATE of a table that is there brings its schema again.  A DROP names a table as the rows
do and the engine takes the deletion.  Rows come only to a table that is there, and not to
another one with its hash.  An UPDATE writes only rows that are still there. -/
def TableChange.Orderly (node : SqlNode) : Option TableChange → Prop
  | some (.created schema) => codec.lowercase schema.name = codec.lowercase n →
      ∀ old ∈ node.machine.catalog.getTable codec n, schema = old
  | some (.dropped table cleared) => codec.lowercase table = codec.lowercase n →
      cleared = true ∧ tableIdFor table = tableIdFor n
  | some (.inserted table _) => tableIdFor table = tableIdFor n →
      codec.lowercase table = codec.lowercase n ∧ (node.machine.catalog.getTable codec n).isSome
  | some (.updated table primaryKeys) => tableIdFor table = tableIdFor n →
      ∀ pk ∈ primaryKeys, HasRow (node.machine.db .data) (tableIdFor n) pk
  | none => True

instance (node : SqlNode) : (change : Option TableChange) → Decidable (TableChange.Orderly codec n node change)
  | some (.created _) => inferInstanceAs (Decidable (_ → ∀ old ∈ _, _))
  | some (.dropped _ _) => inferInstanceAs (Decidable (_ → _ ∧ _))
  | some (.inserted _ _) => inferInstanceAs (Decidable (_ → _ ∧ _))
  | some (.updated _ _) => inferInstanceAs (Decidable (_ → ∀ pk ∈ _, _))
  | none => .isTrue trivial

def Orderly (node : SqlNode) (statement : Statement) : Prop :=
  TableChange.Orderly codec n node (statement.change codec node)

instance (node : SqlNode) (statement : Statement) : Decidable (Orderly codec n node statement) :=
  inferInstanceAs (Decidable (TableChange.Orderly ..))

def Creates (node : SqlNode) (statement : Statement) : Prop :=
  ∃ schema ∈ (statement.change codec node).bind TableChange.created?,
    codec.lowercase schema.name = codec.lowercase n

instance (node : SqlNode) (statement : Statement) : Decidable (Creates codec n node statement) :=
  inferInstanceAs (Decidable (∃ schema ∈ _, _))

def Drops (node : SqlNode) (statement : Statement) : Prop :=
  ∃ table ∈ (statement.change codec node).bind TableChange.dropped?, codec.lowercase table = codec.lowercase n

instance (node : SqlNode) (statement : Statement) : Decidable (Drops codec n node statement) :=
  inferInstanceAs (Decidable (∃ table ∈ _, _))

def Inserts (pk : Bytes) (node : SqlNode) (statement : Statement) : Prop :=
  ∃ table primaryKeys next, statement.change codec node = some (.inserted table primaryKeys) ∧
    codec.lowercase table = codec.lowercase n ∧ pk ∈ primaryKeys ∧ node.exec codec statement = some next ∧
    HasRow (next.machine.db .data) (tableIdFor n) pk

def InsertedBy (pk : Bytes) (node : SqlNode) (statements : List Statement) : Prop :=
  ∃ before statement after reached, statements = before ++ statement :: after ∧
    runs (SqlNode.exec codec) node before = some reached ∧ Inserts codec n pk reached statement

def Gone (node : SqlNode) : Prop :=
  node.machine.catalog.getTable codec n = none ∧ ∀ pk, ¬ HasRow (node.machine.db .data) (tableIdFor n) pk

/-- CREATE and DROP TABLE as they should be, for the statements that follow in some state: after a
DROP the table is gone until the next CREATE, of whose table a scan shows only rows inserted since;
a CREATE of a table that is there changes neither its schema nor its rows. -/
structure TableSemantics (node : SqlNode) (statements : List Statement) (final : SqlNode) : Prop where
  dropped : ∀ drop rest, statements = drop :: rest → Drops codec n node drop →
    Throughout (SqlNode.exec codec) (fun node statement => ¬ Creates codec n node statement) node statements →
    Gone codec n final
  recreated : ∀ drop between create rest empty fresh, statements = drop :: between ++ create :: rest →
    Drops codec n node drop →
    Throughout (SqlNode.exec codec) (fun node statement => ¬ Creates codec n node statement) node
      (drop :: between) →
    runs (SqlNode.exec codec) node (drop :: between) = some empty →
    Creates codec n empty create → empty.exec codec create = some fresh →
    ∀ snapshotTs schema rows, final.scanTable codec n snapshotTs = .ok (schema, rows) →
      ∀ row ∈ rows, row.2 ≠ [] → InsertedBy codec n row.1 fresh rest
  kept : ∀ create schema, statements = [create] → Creates codec n node create →
    node.machine.catalog.getTable codec n = some schema →
    final.machine.catalog.getTable codec n = some schema ∧
      ∀ snapshotTs, final.scanTable codec n snapshotTs = node.scanTable codec n snapshotTs

variable {codec n} {start node next final : SqlNode} {statement : Statement} {statements : List Statement}
  {pk : Bytes}

theorem Creates.change (creates : Creates codec n node statement) : ∃ schema,
    statement.change codec node = some (.created schema) ∧ codec.lowercase schema.name = codec.lowercase n := by
  obtain ⟨schema, found, named⟩ := creates
  obtain ⟨change, changed, made⟩ := Option.bind_eq_some_iff.mp found
  cases change <;> cases made
  exact ⟨schema, changed, named⟩

theorem Drops.change (drops : Drops codec n node statement) : ∃ table cleared,
    statement.change codec node = some (.dropped table cleared) ∧ codec.lowercase table = codec.lowercase n := by
  obtain ⟨table, found, named⟩ := drops
  obtain ⟨change, changed, made⟩ := Option.bind_eq_some_iff.mp found
  cases change <;> cases made
  exact ⟨table, _, changed, named⟩

theorem Orderly.row (orderly : Orderly codec n node statement)
    (made : TableChange.Made codec (statement.change codec node) node.machine next.machine)
    (executed : node.exec codec statement = some next) (has : HasRow (next.machine.db .data) (tableIdFor n) pk) :
    HasRow (node.machine.db .data) (tableIdFor n) pk ∨
      (node.machine.catalog.getTable codec n).isSome ∧ Inserts codec n pk node statement := by
  rcases made.rows _ _ has with before | new
  · exact .inl before
  unfold Orderly at orderly
  cases changed : statement.change codec node with
  | none =>
    rw [changed] at new
    cases new
  | some change =>
    rw [changed] at new orderly
    cases change with
    | created schema => cases new
    | dropped table cleared => cases new
    | inserted table primaryKeys =>
      obtain ⟨key, inside, same⟩ := List.mem_map.mp new
      obtain ⟨id, rfl⟩ := Prod.mk.inj same
      obtain ⟨named, present⟩ := orderly id
      exact .inr ⟨present, table, primaryKeys, next, changed, named, inside, executed, has⟩
    | updated table primaryKeys =>
      obtain ⟨key, inside, same⟩ := List.mem_map.mp new
      obtain ⟨id, rfl⟩ := Prod.mk.inj same
      exact .inl (orderly id _ inside)

theorem Drops.gone (drops : Drops codec n node statement) (orderly : Orderly codec n node statement)
    (made : TableChange.Made codec (statement.change codec node) node.machine next.machine) : Gone codec n next := by
  obtain ⟨table, cleared, changed, named⟩ := drops.change
  rw [Orderly, changed] at orderly
  obtain ⟨rfl, same⟩ := orderly named
  refine ⟨?_, fun pk => same ▸ made.cleared table changed pk⟩
  rw [made.catalog, changed, InMemoryCatalog.getTable, ← named]
  exact Function.update_self ..

theorem Gone.step (gone : Gone codec n node) (orderly : Orderly codec n node statement)
    (other : ¬ Creates codec n node statement)
    (made : TableChange.Made codec (statement.change codec node) node.machine next.machine)
    (executed : node.exec codec statement = some next) : Gone codec n next := by
  refine ⟨?_, fun pk has => ?_⟩
  · rw [made.catalog]
    cases changed : statement.change codec node with
    | none => exact gone.1
    | some change =>
      cases change with
      | created schema =>
        have differs : codec.lowercase schema.name ≠ codec.lowercase n := fun named =>
          other ⟨schema, by rw [changed]; rfl, named⟩
        exact (getTable_createTable differs).trans gone.1
      | dropped table cleared =>
        by_cases named : codec.lowercase table = codec.lowercase n
        · rw [InMemoryCatalog.getTable, ← named]
          exact Function.update_self ..
        · exact (getTable_dropTable named).trans gone.1
      | inserted table primaryKeys => exact gone.1
      | updated table primaryKeys => exact gone.1
  · rcases orderly.row made executed has with before | ⟨present, _⟩
    · exact gone.2 pk before
    · rw [gone.1] at present
      cases present

theorem versioned_run (stored : Versioned (node.machine.db .data))
    (skips : ∀ statement ∈ statements, statement.SkipsTombstones)
    (ran : runs (SqlNode.exec codec) node statements = some final) : Versioned (final.machine.db .data) := by
  refine runs_invariant (fun node => Versioned (node.machine.db .data)) ran stored ?_
  intro node statement inside next stored executed
  exact (exec_made stored (skips statement inside) executed).stored

theorem Gone.run (gone : Gone codec n node) (stored : Versioned (node.machine.db .data))
    (skips : ∀ statement ∈ statements, statement.SkipsTombstones)
    (ran : runs (SqlNode.exec codec) node statements = some final)
    (orderly : Throughout (SqlNode.exec codec) (Orderly codec n) node statements)
    (others : Throughout (SqlNode.exec codec) (fun node statement => ¬ Creates codec n node statement)
      node statements) : Gone codec n final := by
  refine (keeps (fun node => Versioned (node.machine.db .data) ∧ Gone codec n node) ran
    ((orderly.and others).restrict skips) ⟨stored, gone⟩ ?_).2
  rintro node statement next ⟨stored, gone⟩ ⟨⟨orderly, other⟩, skips⟩ executed
  have made := exec_made stored skips executed
  exact ⟨made.stored, gone.step orderly other made executed⟩

theorem rows_run (stored : Versioned (node.machine.db .data))
    (skips : ∀ statement ∈ statements, statement.SkipsTombstones)
    (ran : runs (SqlNode.exec codec) node statements = some final)
    (orderly : Throughout (SqlNode.exec codec) (Orderly codec n) node statements)
    (has : HasRow (final.machine.db .data) (tableIdFor n) pk) :
    HasRow (node.machine.db .data) (tableIdFor n) pk ∨ InsertedBy codec n pk node statements := by
  induction statements generalizing node with
  | nil =>
    cases ran
    exact .inl has
  | cons statement rest induction =>
    obtain ⟨next, executed, ran⟩ := Option.bind_eq_some_iff.mp ran
    have made := exec_made stored (skips _ List.mem_cons_self) executed
    rcases induction made.stored (fun later inside => skips later (List.mem_cons_of_mem _ inside)) ran
      (orderly.2 next executed) with here | ⟨before, insert, after, reached, rfl, ran, inserts⟩
    · rcases orderly.1.row made executed here with before | ⟨_, inserts⟩
      · exact .inl before
      · exact .inr ⟨[], statement, rest, node, rfl, rfl, inserts⟩
    · refine .inr ⟨statement :: before, insert, after, reached, rfl, ?_, inserts⟩
      rw [runs, executed]
      exact ran

theorem Drops.run (drops : Drops codec n node statement) (stored : Versioned (node.machine.db .data))
    (skips : ∀ later ∈ statement :: statements, later.SkipsTombstones)
    (ran : runs (SqlNode.exec codec) node (statement :: statements) = some final)
    (orderly : Throughout (SqlNode.exec codec) (Orderly codec n) node (statement :: statements))
    (others : Throughout (SqlNode.exec codec) (fun node statement => ¬ Creates codec n node statement) node
      (statement :: statements)) : Gone codec n final := by
  obtain ⟨next, executed, ran⟩ := Option.bind_eq_some_iff.mp ran
  have made := exec_made stored (skips _ List.mem_cons_self) executed
  exact (drops.gone orderly.1 made).run made.stored
    (fun later inside => skips later (List.mem_cons_of_mem _ inside)) ran (orderly.2 next executed)
    (others.2 next executed)

theorem Creates.keeps (creates : Creates codec n node statement) (orderly : Orderly codec n node statement)
    (made : TableChange.Made codec (statement.change codec node) node.machine next.machine)
    {schema : TableSchema} (found : node.machine.catalog.getTable codec n = some schema) :
    next.machine.catalog.getTable codec n = some schema ∧
      ∀ snapshotTs, next.scanTable codec n snapshotTs = node.scanTable codec n snapshotTs := by
  obtain ⟨new, changed, named⟩ := creates.change
  rw [Orderly, changed] at orderly
  obtain rfl := orderly named schema found
  have same : next.machine.catalog.getTable codec n = some new := by
    rw [made.catalog, changed, InMemoryCatalog.getTable, ← named]
    exact Function.update_self ..
  refine ⟨same, fun snapshotTs => ?_⟩
  rw [SqlNode.scanTable, SqlNode.scanTable, same, found, made.created new changed]

/-- CREATE and DROP TABLE mean what they say in every state of an orderly run, whatever mixture of
applied entries and local statements it is. -/
theorem create_drop_semantics {before : List Statement} (stored : Versioned (start.machine.db .data))
    (skips : ∀ statement ∈ before ++ statements, statement.SkipsTombstones)
    (orderly : Throughout (SqlNode.exec codec) (Orderly codec n) start (before ++ statements))
    (reached : runs (SqlNode.exec codec) start before = some node)
    (ran : runs (SqlNode.exec codec) node statements = some final) : TableSemantics codec n node statements final := by
  have stored := versioned_run stored (fun later inside => skips later (List.mem_append_left _ inside)) reached
  have skips := fun later inside => skips later (List.mem_append_right _ inside)
  have orderly := orderly.append.2 node reached
  constructor
  case dropped =>
      rintro drop rest rfl drops others
      exact drops.run stored skips ran orderly others
  case recreated =>
      rintro drop between create rest empty fresh rfl drops others left creates created ts schema rows scanned row
        inside live
      have early := fun later (inside : later ∈ drop :: between) => skips later (List.mem_append_left _ inside)
      have gone := drops.run stored early left orderly.append.1 others
      have clean := versioned_run stored early left
      have orderly := orderly.append.2 empty left
      have late := fun later (inside : later ∈ rest) =>
        skips later (List.mem_append_right _ (List.mem_cons_of_mem _ inside))
      have made := exec_made clean (skips create (List.mem_append_right _ List.mem_cons_self)) created
      have ran : runs (SqlNode.exec codec) fresh rest = some final := by
        rw [runs_append, left, Option.bind_some, runs, created, Option.bind_some] at ran
        exact ran
      -- the scan shows a stored row, which is not one of the empty table
      have has : HasRow (final.machine.db .data) (tableIdFor n) row.1 := by
        rw [SqlNode.scanTable] at scanned
        split at scanned
        · cases scanned
        · cases scanned
          exact hasRow_of_scan (versioned_run made.stored late ran) inside live
      rcases rows_run made.stored late ran (orderly.2 fresh created) has with old | inserted
      · obtain ⟨new, changed, _⟩ := creates.change
        rw [made.created new changed] at old
        exact absurd old (gone.2 row.1)
      · exact inserted
  case kept =>
      rintro create schema rfl creates found
      obtain ⟨next, executed, rest⟩ := Option.bind_eq_some_iff.mp ran
      cases rest
      exact creates.keeps orderly.1 (exec_made stored (skips create List.mem_cons_self) executed) found

end Semantics

section Schedules

def notes (columns : List (String × String)) : TableSchema := tableOf "notes" columns

def localRecreate : List Statement :=
  [.createTable (notes [("id", "INT")]) true, .insert (callOn 0) "notes" [1] fun _ => [9],
    .dropTable "notes" true true, .createTable (notes [("text", "TEXT")]) true,
    .insert (callOn 2) "notes" [2] fun _ => [8],
    .update (callOn 4) "notes" fun _ value => if value = [8] then some [7] else none]

def loggedRecreate : List Statement :=
  [replicate 1 (.createTable (notes [("id", "INT")])),
    replicate 2 (.insertRows "notes" (tableIdFor "notes") 65536 [{ primaryKey := [1], value := [9] }]),
    replicate 3 (.dropTable "notes" (tableIdFor "notes")),
    replicate 4 (.createTable (notes [("text", "TEXT")])),
    replicate 5 (.insertRows "notes" (tableIdFor "notes") 65537 [{ primaryKey := [2], value := [8] }]),
    replicate 6 (.updateRows "notes" (tableIdFor "notes") 65538 [{ primaryKey := [2], value := [7] }])]

def rowsAfter (statements : List Statement) : Option (List (Bytes × Bytes)) := do
  let final ← runs (SqlNode.exec asciiSchemas) emptyNode statements
  let (_, rows) ← (final.scanTable asciiSchemas "notes" .max).toOption
  pure (rows.filter fun row => row.2 ≠ [])

theorem create_drop_semantics_recreated :
    (∀ statements ∈ [localRecreate, loggedRecreate], rowsAfter statements = some [([2], [7])]) ∧
    ∀ statements ∈ [localRecreate, loggedRecreate], ∃ node final,
      runs (SqlNode.exec asciiSchemas) emptyNode (statements.take 2) = some node ∧
      runs (SqlNode.exec asciiSchemas) node (statements.drop 2) = some final ∧
      TableSemantics asciiSchemas "notes" node (statements.drop 2) final := by
  refine ⟨by decide +kernel, fun statements inside => ?_⟩
  have orderly : ∀ statements ∈ [localRecreate, loggedRecreate], Throughout (SqlNode.exec asciiSchemas)
      (Orderly asciiSchemas "notes") emptyNode statements := by decide +kernel
  have ends : ∀ statements ∈ [localRecreate, loggedRecreate],
      ((runs (SqlNode.exec asciiSchemas) emptyNode (statements.take 2)).bind fun node =>
        runs (SqlNode.exec asciiSchemas) node (statements.drop 2)).isSome := by decide +kernel
  obtain ⟨final, both⟩ := Option.isSome_iff_exists.mp (ends statements inside)
  obtain ⟨node, reached, ran⟩ := Option.bind_eq_some_iff.mp both
  refine ⟨node, final, reached, ran, create_drop_semantics (by decide +kernel) ?_ ?_ reached ran⟩
  · rw [List.take_append_drop]
    rcases List.mem_pair.mp inside with rfl | rfl <;>
      simp [localRecreate, loggedRecreate, replicate, Statement.SkipsTombstones]
  · rw [List.take_append_drop]
    exact orderly statements inside

def Breaks (before statements : List Statement) : Prop :=
  ∃ node final, runs (SqlNode.exec asciiSchemas) emptyNode before = some node ∧
    runs (SqlNode.exec asciiSchemas) node statements = some final ∧
    ¬ TableSemantics asciiSchemas "notes" node statements final

def survives (before : List Statement) (drop : Statement) (between : List Statement) (create : Statement) : Bool :=
  ((runs (SqlNode.exec asciiSchemas) emptyNode before).bind fun node =>
    (runs (SqlNode.exec asciiSchemas) node (drop :: between)).bind fun empty =>
      (empty.exec asciiSchemas create).map fun fresh =>
        decide (Drops asciiSchemas "notes" node drop ∧
          Throughout (SqlNode.exec asciiSchemas)
            (fun node statement => ¬ Creates asciiSchemas "notes" node statement) node (drop :: between) ∧
          Creates asciiSchemas "notes" empty create ∧
          ∃ table ∈ (fresh.scanTable asciiSchemas "notes" .max).toOption, ∃ row ∈ table.2, row.2 ≠ [])) =
    some true

theorem breaks_of_survives {before statements between : List Statement} {drop create : Statement}
    (split : statements = drop :: between ++ [create])
    (kept : survives before drop between create = true) : Breaks before statements := by
  subst split
  obtain ⟨node, reached, rest⟩ := Option.bind_eq_some_iff.mp (of_decide_eq_true kept)
  obtain ⟨empty, left, rest⟩ := Option.bind_eq_some_iff.mp rest
  obtain ⟨fresh, created, rest⟩ := Option.map_eq_some_iff.mp rest
  obtain ⟨drops, others, creates, ⟨schema, rows⟩, scanned, row, inside, live⟩ := of_decide_eq_true rest
  refine ⟨node, fresh, reached, ?_, fun semantics => ?_⟩
  · rw [runs_append, left, Option.bind_some, runs, created]
    rfl
  · have shown : fresh.scanTable asciiSchemas "notes" .max = .ok (schema, rows) := by
      cases returned : fresh.scanTable asciiSchemas "notes" .max with
      | error error =>
        rw [returned] at scanned
        cases scanned
      | ok table =>
        rw [returned] at scanned
        cases scanned
        rfl
    obtain ⟨early, statement, after, _, split, _⟩ := semantics.recreated drop between create [] empty fresh rfl
      drops others left creates created .max schema rows shown row inside live
    cases early <;> cases split

def dropInCapitals : List Statement := [.dropTable "NOTES" true true, .createTable (notes []) true]

def lateInsert : List Statement :=
  [replicate 2 (.dropTable "notes" (tableIdFor "notes")),
    replicate 3 (.insertRows "notes" (tableIdFor "notes") 65536 [{ primaryKey := [1], value := [9] }]),
    replicate 4 (.createTable (notes []))]

def secondCreate : Statement := replicate 2 (.createTable (notes []))

theorem capitals_survive : Breaks (localRecreate.take 2) dropInCapitals :=
  have parts : dropInCapitals = .dropTable "NOTES" true true :: [] ++ [.createTable (notes []) true] := rfl
  breaks_of_survives parts (by decide +kernel)

theorem late_insert_survives : Breaks (loggedRecreate.take 1) lateInsert :=
  have parts : lateInsert = replicate 2 (.dropTable "notes" (tableIdFor "notes")) ::
      [replicate 3 (.insertRows "notes" (tableIdFor "notes") 65536 [{ primaryKey := [1], value := [9] }])] ++
      [replicate 4 (.createTable (notes []))] := rfl
  breaks_of_survives parts (by decide +kernel)

theorem schema_replaced : Breaks (loggedRecreate.take 1) [secondCreate] := by
  have replaced : ((runs (SqlNode.exec asciiSchemas) emptyNode (loggedRecreate.take 1)).bind fun node =>
      (node.exec asciiSchemas secondCreate).map fun final =>
        (decide (Creates asciiSchemas "notes" node secondCreate),
          node.machine.catalog.getTable asciiSchemas "notes",
          final.machine.catalog.getTable asciiSchemas "notes")) =
      some (true, some (notes [("id", "INT")]), some (notes [])) := by decide +kernel
  obtain ⟨node, reached, rest⟩ := Option.bind_eq_some_iff.mp replaced
  obtain ⟨final, executed, seen⟩ := Option.map_eq_some_iff.mp rest
  simp only [Prod.mk.injEq, decide_eq_true_eq] at seen
  obtain ⟨creates, before, after⟩ := seen
  refine ⟨node, final, reached, by rw [runs, executed]; rfl, fun semantics => ?_⟩
  have kept := (semantics.kept _ _ rfl creates before).1
  rw [after] at kept
  exact absurd kept (by decide +kernel)

theorem dropped_rows_return : Breaks (localRecreate.take 2) dropInCapitals ∧
    Breaks (loggedRecreate.take 1) lateInsert ∧ Breaks (loggedRecreate.take 1) [secondCreate] :=
  ⟨capitals_survive, late_insert_survives, schema_replaced⟩

end Schedules

end Neuralbase
