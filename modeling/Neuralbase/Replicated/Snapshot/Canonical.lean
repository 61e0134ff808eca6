import Mathlib
import Neuralbase.Library.KeySort
import Neuralbase.Replicated.Exportable

namespace Neuralbase.Replicated

open Neuralbase.Library
open Neuralbase.Consensus (Bytes)
open Neuralbase.Storage (tableIdFor)

/-! The snapshot format is canonical (`replicated_snapshot.rs`): a snapshot has an encoding
exactly if its fields, counts, names and keys keep the rules of the format, snapshots that
differ in the order of tables and rows have the same one, and every accepted file is the
encoding of what it is decoded to. -/

namespace Snapshot

section Restores

open SnapshotCodecError

variable {most : Nat} {item : SnapshotItem} {field : SnapshotField}

theorem restores_count : Restores (putCount most item) (readCount most item) := by
  refine Reader.takes_number.bind fun code value holds => Reader.takes_lift fun count few => ?_
  obtain ⟨rfl, bounded⟩ := holds
  split_ifs at few with many
  cases few
  rw [List.append_nil]
  exact if_neg (not_or.mpr ⟨many, not_le.mpr bounded⟩)

theorem restores_bytes : Restores (putBytesWithLimit most field) (readBytesWithLimit most field) := by
  refine Reader.takes_number.bind fun code length holds => Reader.takes_checked fun _ small => ?_
  obtain ⟨rfl, bounded⟩ := holds
  split_ifs at small with large
  intro bytes value rest read
  obtain ⟨code, rfl, rfl, rfl⟩ := Reader.takes_take bytes value rest read
  exact ⟨value, rfl, if_neg (not_or.mpr ⟨large, not_le.mpr bounded⟩)⟩

theorem takes_name {empty : SnapshotCodecError} :
    (readName field empty).Takes fun code name => putString field name = .ok code ∧ utf8 name ≠ [] := by
  have text : Restores (putString field) (readString field) := by
    refine restores_bytes.bind fun code bytes put => Reader.takes_lift fun text read => ?_
    rw [List.append_nil, putString, utf8_of_accepted read]
    exact put
  refine text.bind fun code name put => Reader.takes_lift fun value named => ?_
  split_ifs at named with isEmpty
  cases named
  rw [List.append_nil]
  exact ⟨put, isEmpty⟩

theorem restores_column : Restores putColumn readColumn := by
  refine takes_name.bind fun name value named => takes_name.bind fun dataType value typed => Reader.takes_pure ?_
  rw [List.append_nil]
  exact bind_eq_ok.mpr ⟨name, named.1, bind_eq_ok.mpr ⟨dataType, typed.1, rfl⟩⟩

theorem restores_row : Restores putRow readRow := by
  refine restores_bytes.bind fun key value keyed => restores_bytes.bind fun bytes value valued => Reader.takes_pure ?_
  rw [List.append_nil]
  exact bind_eq_ok.mpr ⟨key, keyed, bind_eq_ok.mpr ⟨bytes, valued, rfl⟩⟩

theorem takes_table : readTable.Takes fun code table =>
    putTable table = .ok code ∧ ensureRowOrder table.rows = .ok () ∧ validateTable table = .ok () := by
  refine Reader.takes_number.bind fun id tableId numbered => takes_name.bind fun nameCode name named => ?_
  refine restores_count.bind fun columnCount columns countedColumns => ?_
  refine (restores_column.many columns).bind fun columnsCode columns putColumns => ?_
  refine restores_count.bind fun rowCount rows countedRows => ?_
  refine (restores_row.many rows).bind fun rowsCode rows putRows => Reader.takes_checked fun _ ordered => ?_
  refine Reader.takes_lift fun table passes => ?_
  obtain ⟨⟨⟩, valid, rfl⟩ := map_eq_ok.mp passes
  obtain ⟨rfl, bounded⟩ := numbered
  obtain ⟨encodedColumns, rfl⟩ := putColumns
  obtain ⟨encodedRows, rfl⟩ := putRows
  refine ⟨?_, ordered, valid⟩
  rw [List.append_nil]
  refine bind_eq_ok.mpr ⟨nameCode, named.1, bind_eq_ok.mpr ⟨columnCount, countedColumns, bind_eq_ok.mpr
    ⟨columnsCode, encodedColumns, bind_eq_ok.mpr ⟨rowCount, countedRows, bind_eq_ok.mpr
      ⟨rowsCode, encodedRows, ?_⟩⟩⟩⟩⟩
  rw [UInt32.toNat_ofNat_of_lt' bounded]
  rfl

theorem takes_metadata : readMetadata.Takes fun code metadata =>
    code = putMetadata metadata ∧ validateMetadata metadata = .ok () := by
  refine Reader.takes_number.bind fun first index indexed => Reader.takes_number.bind fun second term termed => ?_
  refine Reader.takes_number.bind fun third applied marked => Reader.takes_number.bind fun fourth stamp stamped => ?_
  refine Reader.takes_lift fun metadata passes => ?_
  obtain ⟨⟨⟩, valid, rfl⟩ := map_eq_ok.mp passes
  refine ⟨?_, valid⟩
  rw [indexed.1, termed.1, marked.1, stamped.1, List.append_nil]
  rfl

end Restores

def payload (metadata : SnapshotMetadata) (count body extension : Bytes) : Bytes :=
  magic ++ ([replicatedSnapshotVersion] ++ ([0] ++ (putMetadata metadata ++ (count ++ (body ++ extension)))))

/-- What `encode` checks and writes. -/
structure Written (codec : SchemaCodec) (snapshot : ReplicatedSqlSnapshot) (count body extension : Bytes) : Prop where
  metadata : validateMetadata snapshot.metadata = .ok ()
  bounded : validateExtension snapshot.metadataExtension = .ok ()
  tables : ∀ table ∈ snapshot.tables,
    validateTable table = .ok () ∧ (table.rows.map SnapshotRow.primaryKey).Nodup
  names : (snapshot.tables.map (tableOrder codec)).Nodup
  counted : putCount maxTables .tables snapshot.tables.length = .ok count
  encoded : putMany putTable (snapshot.canonical codec).tables = .ok body
  extended : putBytesWithLimit maxExtensionBytes .metadataExtension snapshot.metadataExtension = .ok extension
  short : (payload snapshot.metadata count body extension).length ≤ maxReplicatedSnapshotBytes - checksumBytes

section Encode

variable {codec : SchemaCodec} {sha256 : Bytes → Digest} {snapshot other : ReplicatedSqlSnapshot} {bytes : Bytes}

theorem ensureRowOrder_sortRows {table : SnapshotTable} : ensureRowOrder (sortRows table).rows = .ok () ↔
    (table.rows.map SnapshotRow.primaryKey).Nodup := by
  rw [ensureRowOrder, ensureOrder_eq_ok, List.pairwise_map, sortRows, keySort_strict]

theorem map_tableOrder_sortRows (tables : List SnapshotTable) :
    (tables.map sortRows).map (tableOrder codec) = tables.map (tableOrder codec) := by
  rw [List.map_map]
  rfl

theorem ensureTableOrder_sortTables {tables : List SnapshotTable} :
    ensureTableOrder codec (sortTables codec (tables.map sortRows)) = .ok () ↔
      (tables.map (tableOrder codec)).Nodup := by
  rw [ensureTableOrder, ensureOrder_eq_ok, List.pairwise_map, sortTables, keySort_strict, map_tableOrder_sortRows]

theorem encode_eq_ok : ReplicatedSqlSnapshot.encode codec sha256 snapshot = .ok bytes ↔
    ∃ count body extension, Written codec snapshot count body extension ∧
      bytes = ReplicatedSqlSnapshot.withChecksum sha256 (payload snapshot.metadata count body extension) := by
  have length : (sortTables codec (snapshot.tables.map sortRows)).length = snapshot.tables.length := by
    rw [sortTables, List.length_insertionSort, List.length_map]
  constructor
  · intro encoded
    obtain ⟨metadata, encoded⟩ := check_eq_ok.mp encoded
    obtain ⟨bounded, encoded⟩ := check_eq_ok.mp encoded
    obtain ⟨tables, made, encoded⟩ := bind_eq_ok.mp encoded
    obtain ⟨rfl, checked⟩ := canonicalTables made
    obtain ⟨ordered, encoded⟩ := check_eq_ok.mp encoded
    obtain ⟨count, counted, encoded⟩ := bind_eq_ok.mp encoded
    obtain ⟨body, put, encoded⟩ := bind_eq_ok.mp encoded
    obtain ⟨extension, extended, encoded⟩ := bind_eq_ok.mp encoded
    obtain ⟨short, encoded⟩ := guard_eq_ok.mp encoded
    cases pure_eq_ok.mp encoded
    exact ⟨count, body, extension, ⟨metadata, bounded,
      fun table inside => ⟨(checked table inside).1, ensureRowOrder_sortRows.mp (checked table inside).2⟩,
      ensureTableOrder_sortTables.mp ordered, length ▸ counted, put, extended, not_lt.mp short⟩, rfl⟩
  · rintro ⟨count, body, extension, written, rfl⟩
    have made : snapshot.tables.mapM canonicalTable = .ok (snapshot.tables.map sortRows) :=
      mapM_eq_map fun table inside => check_eq_ok.mpr ⟨(written.tables table inside).1, check_eq_ok.mpr
        ⟨ensureRowOrder_sortRows.mpr (written.tables table inside).2, rfl⟩⟩
    refine check_eq_ok.mpr ⟨written.metadata, check_eq_ok.mpr ⟨written.bounded, bind_eq_ok.mpr ⟨_, made, ?_⟩⟩⟩
    refine check_eq_ok.mpr ⟨ensureTableOrder_sortTables.mpr written.names,
      bind_eq_ok.mpr ⟨count, length ▸ written.counted, ?_⟩⟩
    refine bind_eq_ok.mpr ⟨body, written.encoded, bind_eq_ok.mpr ⟨extension, written.extended, ?_⟩⟩
    exact guard_eq_ok.mpr ⟨not_lt.mpr written.short, rfl⟩

theorem takes_snapshot : (readSnapshot codec).Takes fun code snapshot =>
    ∃ count body extension, code = payload snapshot.metadata count body extension ∧
      (code.length ≤ maxReplicatedSnapshotBytes - checksumBytes → Written codec snapshot count body extension) := by
  refine Reader.takes_take.bind fun magicCode magicBytes taken => Reader.takes_checked fun _ named => ?_
  refine Reader.takes_u8.bind fun versionCode version same => Reader.takes_checked fun _ supported => ?_
  refine Reader.takes_u8.bind fun flagsCode flags also => Reader.takes_checked fun _ plain => ?_
  refine takes_metadata.bind fun metadataCode metadata described => restores_count.bind fun count tableCount counted => ?_
  refine (takes_many takes_table tableCount).bind fun body tables read => Reader.takes_checked fun _ ordered => ?_
  refine restores_bytes.bind fun extension metadataExtension extended => Reader.takes_pure ?_
  obtain ⟨rfl, _⟩ := taken
  obtain ⟨rfl, valid⟩ := described
  obtain ⟨encoded, rfl, checked⟩ := read
  subst same also
  split_ifs at named supported plain with isMagic isVersion isPlain
  subst isMagic isVersion isPlain
  have rows : ∀ table ∈ tables, table.rows.Pairwise fun left right => left.primaryKey < right.primaryKey :=
    fun table inside => List.pairwise_map.mp (ensureOrder_eq_ok.mp (checked table inside).1)
  have names : tables.Pairwise fun left right => tableOrder codec left < tableOrder codec right :=
    List.pairwise_map.mp (ensureOrder_eq_ok.mp ordered)
  have bounded : validateExtension metadataExtension = .ok () := by
    unfold putBytesWithLimit at extended
    split_ifs at extended with refused
    exact if_neg (not_or.mp refused).1
  refine ⟨count, body, extension, by rw [List.append_nil]; rfl, fun short => ?_⟩
  refine ⟨valid, bounded, fun table inside => ⟨(checked table inside).2, ?_⟩, ?_, counted, ?_, extended, ?_⟩
  · exact List.pairwise_map.mpr ((rows table inside).imp fun below => below.ne)
  · exact List.pairwise_map.mpr (names.imp fun below => below.ne)
  · rwa [ReplicatedSqlSnapshot.canonical_eq names rows]
  · rw [List.append_nil] at short
    exact short

end Encode

end Snapshot

namespace ReplicatedSqlSnapshot

open Snapshot

variable {codec : SchemaCodec} {sha256 : Bytes → Digest} {snapshot other : ReplicatedSqlSnapshot} {bytes : Bytes}

theorem encode_decode (decoded : decode codec sha256 bytes = .ok snapshot) : encode codec sha256 snapshot = .ok bytes := by
  unfold decode at decoded
  split_ifs at decoded with large truncated mismatch
  obtain ⟨⟨found, rest⟩, read, rfl⟩ := map_eq_ok.mp decoded
  obtain ⟨count, body, extension, same, written⟩ := takes_snapshot.whole read
  have cut : (bytes.take (bytes.length - checksumBytes)).length ≤ maxReplicatedSnapshotBytes - checksumBytes := by
    rw [List.length_take]
    omega
  refine encode_eq_ok.mpr ⟨count, body, extension, written cut, ?_⟩
  rw [← same, withChecksum, not_not.mp mismatch, List.take_append_drop]

end ReplicatedSqlSnapshot

namespace Snapshot

structure ValidTable (table : SnapshotTable) : Prop where
  named : table.schema.name ≠ ""
  nameFits : (utf8 table.schema.name).length ≤ maxFieldBytes
  columnCount : table.schema.columns.length ≤ maxColumnsPerTable
  columns : ∀ column ∈ table.schema.columns, (column.name ≠ "" ∧ column.dataType ≠ "") ∧
    (utf8 column.name).length ≤ maxFieldBytes ∧ (utf8 column.dataType).length ≤ maxFieldBytes
  rowCount : table.rows.length ≤ maxRowsPerTable
  rows : ∀ row ∈ table.rows, row.primaryKey.length ≤ maxFieldBytes ∧ row.value.length ≤ maxFieldBytes
  tableId : table.tableId = tableIdFor table.schema.name
  distinct : (table.rows.map SnapshotRow.primaryKey).Nodup

def columnBytes (column : ColumnDef) : Nat := (4 + (utf8 column.name).length) + (4 + (utf8 column.dataType).length)

def rowBytes (row : SnapshotRow) : Nat := (4 + row.primaryKey.length) + (4 + row.value.length)

def tableBytes (table : SnapshotTable) : Nat :=
  4 + (4 + (utf8 table.schema.name).length) + 4 + (table.schema.columns.map columnBytes).sum + 4 +
    (table.rows.map rowBytes).sum

/-- The rules for a snapshot: metadata that agrees, tables and names without duplicates, and
sizes within the limits.  What is written besides the tables and the extension takes 46 bytes. -/
structure Valid (codec : SchemaCodec) (snapshot : ReplicatedSqlSnapshot) : Prop where
  applied : snapshot.metadata.latestSqlApplyIndex ≤ snapshot.metadata.lastIncludedIndex
  stamped : snapshot.metadata.latestSqlApplyIndex = 0 → snapshot.metadata.latestCommitTs = 0
  extension : snapshot.metadataExtension.length ≤ maxExtensionBytes
  tables : ∀ table ∈ snapshot.tables, ValidTable table
  distinct : (snapshot.tables.map (tableOrder codec)).Nodup
  tableCount : snapshot.tables.length ≤ maxTables
  short : 46 + (snapshot.tables.map tableBytes).sum + snapshot.metadataExtension.length + checksumBytes ≤
    maxReplicatedSnapshotBytes

section Rules

variable {codec : SchemaCodec} {table : SnapshotTable} {snapshot : ReplicatedSqlSnapshot} {code : Bytes}

theorem utf8_eq_nil {text : String} : utf8 text = [] ↔ text = "" := utf8_injective.eq_iff' (by decide)

theorem validateField_eq_ok {field : SnapshotField} {value : Bytes} :
    validateField field value = .ok () ↔ value.length ≤ maxFieldBytes := by
  unfold validateField
  split_ifs with refused
  · simp only [false_iff, not_le]
    unfold maxFieldBytes at *
    omega
  · simp only [true_iff]
    exact not_lt.mp (not_or.mp refused).1

theorem validateColumn_eq_ok {column : ColumnDef} : validateColumn column = .ok () ↔
    (column.name ≠ "" ∧ column.dataType ≠ "") ∧
      (utf8 column.name).length ≤ maxFieldBytes ∧ (utf8 column.dataType).length ≤ maxFieldBytes := by
  rw [validateColumn, guard_eq_ok, guard_eq_ok, check_eq_ok, validateField_eq_ok, validateField_eq_ok, utf8_eq_nil,
    utf8_eq_nil, and_assoc]

theorem validateTable_eq_ok : validateTable table = .ok () ∧ (table.rows.map SnapshotRow.primaryKey).Nodup ↔
    ValidTable table := by
  have id : checkSnapshotTableId table = .ok () ↔ table.tableId = tableIdFor table.schema.name := by
    unfold checkSnapshotTableId
    split_ifs with differs
    · simpa using differs
    · simpa using differs
  have row (row : SnapshotRow) : validateRow row = .ok () ↔
      row.primaryKey.length ≤ maxFieldBytes ∧ row.value.length ≤ maxFieldBytes := by
    rw [validateRow, check_eq_ok, validateField_eq_ok, validateField_eq_ok]
  rw [validateTable, guard_eq_ok, guard_eq_ok, guard_eq_ok, check_eq_ok, check_eq_ok, check_eq_ok, forM_eq_ok, forM_eq_ok,
    validateField_eq_ok, id, utf8_eq_nil, not_lt, not_lt]
  constructor
  · rintro ⟨⟨named, columnCount, rowCount, columns, nameFits, rows, tableId⟩, distinct⟩
    exact ⟨named, nameFits, columnCount, fun column inside => validateColumn_eq_ok.mp (columns column inside), rowCount,
      fun item inside => (row item).mp (rows item inside), tableId, distinct⟩
  · intro valid
    exact ⟨⟨valid.named, valid.columnCount, valid.rowCount,
      fun column inside => validateColumn_eq_ok.mpr (valid.columns column inside), valid.nameFits,
      fun item inside => (row item).mpr (valid.rows item inside), valid.tableId⟩, valid.distinct⟩

theorem length_putBytesWithLimit {most : Nat} {field : SnapshotField} {value : Bytes}
    (put : putBytesWithLimit most field value = .ok code) : code.length = 4 + value.length := by
  unfold putBytesWithLimit at put
  split_ifs at put
  cases put
  rw [List.length_append, length_toBeBytes]

theorem length_putCount {most value : Nat} {item : SnapshotItem} (put : putCount most item value = .ok code) :
    code.length = 4 := by
  unfold putCount at put
  split_ifs at put
  cases put
  exact length_toBeBytes 4 value

theorem length_putColumn (column : ColumnDef) (code : Bytes) (put : putColumn column = .ok code) :
    code.length = columnBytes column := by
  obtain ⟨name, named, put⟩ := bind_eq_ok.mp put
  obtain ⟨dataType, typed, put⟩ := bind_eq_ok.mp put
  cases pure_eq_ok.mp put
  rw [List.length_append, length_putBytesWithLimit named, length_putBytesWithLimit typed, columnBytes]

theorem length_putRow (row : SnapshotRow) (code : Bytes) (put : putRow row = .ok code) : code.length = rowBytes row := by
  obtain ⟨key, keyed, put⟩ := bind_eq_ok.mp put
  obtain ⟨value, valued, put⟩ := bind_eq_ok.mp put
  cases pure_eq_ok.mp put
  rw [List.length_append, length_putBytesWithLimit keyed, length_putBytesWithLimit valued, rowBytes]

theorem length_putTable (table : SnapshotTable) (code : Bytes) (put : putTable table = .ok code) :
    code.length = tableBytes table := by
  obtain ⟨name, named, put⟩ := bind_eq_ok.mp put
  obtain ⟨columnCount, countedColumns, put⟩ := bind_eq_ok.mp put
  obtain ⟨columns, putColumns, put⟩ := bind_eq_ok.mp put
  obtain ⟨rowCount, countedRows, put⟩ := bind_eq_ok.mp put
  obtain ⟨rows, putRows, put⟩ := bind_eq_ok.mp put
  cases pure_eq_ok.mp put
  simp only [List.length_append, length_toBeBytes, length_putBytesWithLimit named, length_putCount countedColumns,
    putMany_length length_putColumn putColumns, length_putCount countedRows, putMany_length length_putRow putRows,
    tableBytes]
  omega

theorem tableBytes_sortRows (table : SnapshotTable) : tableBytes (sortRows table) = tableBytes table := by
  unfold tableBytes sortRows
  rw [((List.perm_insertionSort _ table.rows).map rowBytes).sum_eq]

theorem canonical_bytes : ((snapshot.canonical codec).tables.map tableBytes).sum = (snapshot.tables.map tableBytes).sum := by
  have perm : (snapshot.canonical codec).tables.Perm (snapshot.tables.map sortRows) := List.perm_insertionSort _ _
  rw [(perm.map tableBytes).sum_eq, List.map_map]
  exact congrArg List.sum (List.map_congr_left fun table _ => tableBytes_sortRows table)

theorem length_payload {count body extension : Bytes} (counted : count.length = 4) :
    (payload snapshot.metadata count body extension).length = 42 + body.length + extension.length := by
  have fixed : magic.length = 4 := by decide
  simp only [payload, List.length_append, fixed, List.length_singleton, putMetadata, length_toBeBytes, counted]
  omega

theorem written_exists : (∃ count body extension, Written codec snapshot count body extension) ↔ Valid codec snapshot := by
  constructor
  · rintro ⟨count, body, extension, written⟩
    obtain ⟨applied, stamped⟩ := validateMetadata_eq_ok.mp written.metadata
    have bounded : snapshot.metadataExtension.length ≤ maxExtensionBytes := by
      have bounded := written.bounded
      unfold validateExtension at bounded
      split_ifs at bounded with large
      exact not_lt.mp large
    have few : snapshot.tables.length ≤ maxTables := by
      have counted := written.counted
      unfold putCount at counted
      split_ifs at counted with many
      exact not_lt.mp (not_or.mp many).1
    refine ⟨applied, stamped, bounded, fun table inside => validateTable_eq_ok.mp (written.tables table inside),
      written.names, few, ?_⟩
    have short := written.short
    rw [length_payload (length_putCount written.counted), putMany_length length_putTable written.encoded, canonical_bytes,
      length_putBytesWithLimit written.extended] at short
    unfold maxReplicatedSnapshotBytes checksumBytes at *
    omega
  · intro valid
    have tables := fun table inside => validateTable_eq_ok.mpr (valid.tables table inside)
    obtain ⟨body, encoded⟩ : ∃ body, putMany putTable (snapshot.canonical codec).tables = .ok body := by
      refine putMany_exists fun table inside => ?_
      obtain ⟨source, member, rfl⟩ := List.mem_map.mp ((List.mem_insertionSort _).mp inside)
      exact putTable_exists (validateTable_sortRows (tables source member).1)
    have counted := @putCount_eq maxTables snapshot.tables.length .tables valid.tableCount (by decide)
    have small : ¬ (maxExtensionBytes < snapshot.metadataExtension.length ∨ 2 ^ 32 ≤ snapshot.metadataExtension.length) := by
      have bounded := valid.extension
      unfold maxExtensionBytes at *
      omega
    refine ⟨_, body, _, validateMetadata_eq_ok.mpr ⟨valid.applied, valid.stamped⟩, if_neg (not_lt.mpr valid.extension),
      tables, valid.distinct, counted, encoded, if_neg small, ?_⟩
    have short := valid.short
    rw [length_payload (length_putCount counted), putMany_length length_putTable encoded, canonical_bytes, List.length_append,
      length_toBeBytes]
    unfold maxReplicatedSnapshotBytes checksumBytes at *
    omega

end Rules

end Snapshot

structure SnapshotTable.Reordered (table other : SnapshotTable) : Prop where
  schema : table.schema = other.schema
  tableId : table.tableId = other.tableId
  rows : table.rows.Perm other.rows

structure ReplicatedSqlSnapshot.Reordered (snapshot other : ReplicatedSqlSnapshot) : Prop where
  metadata : snapshot.metadata = other.metadata
  extension : snapshot.metadataExtension = other.metadataExtension
  tables : ∃ tables, List.Forall₂ SnapshotTable.Reordered snapshot.tables tables ∧ tables.Perm other.tables

structure ReplicatedSqlSnapshot.InOrder (codec : SchemaCodec) (snapshot : ReplicatedSqlSnapshot) : Prop where
  tables : snapshot.tables.Pairwise fun left right => Snapshot.tableOrder codec left < Snapshot.tableOrder codec right
  rows : ∀ table ∈ snapshot.tables, table.rows.Pairwise fun left right => left.primaryKey < right.primaryKey

namespace Snapshot

section Reordered

variable {codec : SchemaCodec} {sha256 : Bytes → Digest} {table other : SnapshotTable} {tables others : List SnapshotTable}
  {snapshot renewed : ReplicatedSqlSnapshot} {count body extension : Bytes}

theorem ValidTable.reorder (valid : ValidTable table) (reordered : table.Reordered other) : ValidTable other := by
  obtain ⟨schema, tableId, rows⟩ := reordered
  refine ⟨schema ▸ valid.named, schema ▸ valid.nameFits, schema ▸ valid.columnCount, schema ▸ valid.columns,
    rows.length_eq ▸ valid.rowCount, fun row inside => valid.rows row (rows.mem_iff.mpr inside),
    schema ▸ tableId ▸ valid.tableId, ?_⟩
  exact (rows.map SnapshotRow.primaryKey).nodup_iff.mp valid.distinct

theorem sortRows_reorder (reordered : table.Reordered other) (distinct : (table.rows.map SnapshotRow.primaryKey).Nodup) :
    sortRows table = sortRows other := by
  obtain ⟨schema, tableId, rows⟩ := reordered
  rw [sortRows, sortRows, keySort_congr rows distinct, schema, tableId]

theorem sortRows_each (each : List.Forall₂ SnapshotTable.Reordered tables others)
    (distinct : ∀ table ∈ tables, (table.rows.map SnapshotRow.primaryKey).Nodup) :
    tables.map sortRows = others.map sortRows := by
  induction each with
  | nil => rfl
  | cons head _ induction =>
    obtain ⟨first, rest⟩ := List.forall_mem_cons.mp distinct
    rw [List.map_cons, List.map_cons, sortRows_reorder head first, induction rest]

theorem Written.reorder (written : Written codec snapshot count body extension) (reordered : snapshot.Reordered renewed) :
    Written codec renewed count body extension := by
  obtain ⟨metadata, bytes, tables, each, perm⟩ := reordered
  have sorted := sortRows_each each fun table inside => (written.tables table inside).2
  have names : snapshot.tables.map (tableOrder codec) = tables.map (tableOrder codec) := by
    rw [← map_tableOrder_sortRows, sorted, map_tableOrder_sortRows]
  have length : snapshot.tables.length = renewed.tables.length := each.length_eq.trans perm.length_eq
  have canonical : (renewed.canonical codec).tables = (snapshot.canonical codec).tables := by
    refine (@keySort_congr _ _ _ (tableOrder codec) (snapshot.tables.map sortRows) (renewed.tables.map sortRows) ?_ ?_).symm
    · rw [sorted]
      exact perm.map sortRows
    · rw [map_tableOrder_sortRows]
      exact written.names
  refine ⟨metadata ▸ written.metadata, bytes ▸ written.bounded, fun table inside => ?_, ?_, length ▸ written.counted,
    canonical ▸ written.encoded, bytes ▸ written.extended, metadata ▸ written.short⟩
  · obtain ⟨source, member, same⟩ := forall₂_right each (perm.mem_iff.mpr inside)
    exact validateTable_eq_ok.mpr ((validateTable_eq_ok.mp (written.tables source member)).reorder same)
  · rw [← (perm.map (tableOrder codec)).nodup_iff, ← names]
    exact written.names

theorem canonical_inOrder (written : Written codec snapshot count body extension) :
    (snapshot.canonical codec).InOrder codec := by
  refine ⟨keySort_strict.mpr (map_tableOrder_sortRows snapshot.tables ▸ written.names), fun table inside => ?_⟩
  obtain ⟨source, member, rfl⟩ := List.mem_map.mp ((List.mem_insertionSort _).mp inside)
  exact keySort_strict.mpr (written.tables source member).2

theorem canonical_reordered : snapshot.Reordered (snapshot.canonical codec) := by
  refine ⟨rfl, rfl, snapshot.tables.map sortRows, ?_, (List.perm_insertionSort _ _).symm⟩
  rw [List.forall₂_map_right_iff]
  exact List.forall₂_same.mpr fun table _ => ⟨rfl, rfl, (List.perm_insertionSort _ _).symm⟩

end Reordered

end Snapshot

/-- The snapshot codec is canonical, whatever the digest.  The numbers of the metadata are 64
bits wide.  Tables and rows that are not in order are sorted, not refused. -/
theorem snapshot_codec_canonical (codec : SchemaCodec) (sha256 : Bytes → Digest) (snapshot : ReplicatedSqlSnapshot)
    (fits : snapshot.metadata.Fits) :
    ((∃ bytes, snapshot.encode codec sha256 = .ok bytes) ↔ Snapshot.Valid codec snapshot) ∧
    (∀ bytes, snapshot.encode codec sha256 = .ok bytes →
      ReplicatedSqlSnapshot.decode codec sha256 bytes = .ok (snapshot.canonical codec) ∧
        snapshot.Reordered (snapshot.canonical codec) ∧ (snapshot.canonical codec).InOrder codec) ∧
    (∀ other bytes, snapshot.Reordered other → snapshot.encode codec sha256 = .ok bytes →
      other.encode codec sha256 = .ok bytes) ∧
    ∀ bytes, ReplicatedSqlSnapshot.decode codec sha256 bytes = .ok snapshot → snapshot.encode codec sha256 = .ok bytes := by
  refine ⟨?_, fun bytes encoded => ?_, fun other bytes reordered encoded => ?_,
    fun bytes => ReplicatedSqlSnapshot.encode_decode⟩
  · rw [← Snapshot.written_exists]
    constructor
    · rintro ⟨bytes, encoded⟩
      obtain ⟨count, body, extension, written, _⟩ := Snapshot.encode_eq_ok.mp encoded
      exact ⟨count, body, extension, written⟩
    · rintro ⟨count, body, extension, written⟩
      exact ⟨_, Snapshot.encode_eq_ok.mpr ⟨count, body, extension, written, rfl⟩⟩
  · obtain ⟨_, _, _, written, _⟩ := Snapshot.encode_eq_ok.mp encoded
    exact ⟨ReplicatedSqlSnapshot.decode_encode fits encoded, Snapshot.canonical_reordered, Snapshot.canonical_inOrder written⟩
  · obtain ⟨count, body, extension, written, rfl⟩ := Snapshot.encode_eq_ok.mp encoded
    exact Snapshot.encode_eq_ok.mpr ⟨count, body, extension, written.reorder reordered, by rw [reordered.metadata]⟩

def unordered : ReplicatedSqlSnapshot where
  metadata := ⟨3, 1, 2, 9⟩
  tables := [⟨⟨"t", [⟨"a", "INT"⟩]⟩, tableIdFor "t", [⟨[2], [20]⟩, ⟨[1], [10]⟩]⟩]
  metadataExtension := []

theorem unordered_valid : Snapshot.Valid plainSchemas unordered where
  applied := by decide
  stamped := by decide
  extension := by decide
  tables := List.forall_mem_singleton.mpr
    ⟨by decide, by decide, by decide, by decide, by decide, by decide, rfl, by decide⟩
  distinct := List.nodup_singleton _
  tableCount := by decide
  short := by decide

theorem snapshot_codec_canonical_unordered :
    ∃ bytes, unordered.encode plainSchemas (fun _ => ⟨List.replicate 32 0, rfl⟩) = .ok bytes ∧
      ReplicatedSqlSnapshot.decode plainSchemas (fun _ => ⟨List.replicate 32 0, rfl⟩) bytes =
        .ok (unordered.canonical plainSchemas) := by
  obtain ⟨valid, decodes, _, _⟩ := snapshot_codec_canonical plainSchemas (fun _ => ⟨List.replicate 32 0, rfl⟩) unordered
    ⟨by decide, by decide, by decide, by decide⟩
  obtain ⟨bytes, encoded⟩ := valid.mpr unordered_valid
  exact ⟨bytes, encoded, (decodes bytes encoded).1⟩

/-- A snapshot that is not in order is not refused. -/
theorem unordered_accepted : ¬ unordered.InOrder plainSchemas ∧
    ∃ bytes, unordered.encode plainSchemas (fun _ => ⟨List.replicate 32 0, rfl⟩) = .ok bytes := by
  constructor
  · intro ordered
    have rows := ordered.rows _ List.mem_cons_self
    exact absurd (List.rel_of_pairwise_cons rows List.mem_cons_self) (by decide)
  · obtain ⟨count, body, extension, written⟩ := Snapshot.written_exists.mpr unordered_valid
    exact ⟨_, Snapshot.encode_eq_ok.mpr ⟨count, body, extension, written, rfl⟩⟩

end Neuralbase.Replicated
