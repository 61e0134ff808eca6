import Neuralbase.Replicated.Identity
import Neuralbase.Storage.Executor

namespace Neuralbase.Replicated

open Neuralbase.Library
open Neuralbase.Consensus (Bytes)
open Neuralbase.Storage (tableIdFor)

/-! Logical snapshots of the replicated state and their wire format
(`replicated_snapshot.rs`), and the envelope for the registry of users that they carry
(`replicated_identity_snapshot.rs`). -/

structure SnapshotMetadata where
  lastIncludedIndex : Nat
  lastIncludedTerm : Nat
  latestSqlApplyIndex : Nat
  latestCommitTs : Nat
deriving DecidableEq

structure SnapshotMetadata.Fits (metadata : SnapshotMetadata) : Prop where
  index : metadata.lastIncludedIndex < 2 ^ 64
  term : metadata.lastIncludedTerm < 2 ^ 64
  applied : metadata.latestSqlApplyIndex < 2 ^ 64
  stamp : metadata.latestCommitTs < 2 ^ 64

structure SnapshotRow where
  primaryKey : Bytes
  value : Bytes
deriving DecidableEq

structure SnapshotTable where
  schema : TableSchema
  tableId : UInt32
  rows : List SnapshotRow
deriving DecidableEq

structure ReplicatedSqlSnapshot where
  metadata : SnapshotMetadata
  tables : List SnapshotTable
  metadataExtension : Bytes
deriving DecidableEq

inductive SnapshotItem where
  | tables
  | columns
  | rows
deriving DecidableEq

inductive SnapshotField where
  | tableName
  | columnName
  | columnType
  | primaryKey
  | rowValue
  | metadataExtension
deriving DecidableEq

inductive SnapshotCodecError where
  | tooLarge
  | unexpectedEof
  | invalidMagic
  | unsupportedVersion (version : UInt8)
  | unsupportedFlags (flags : UInt8)
  | checksumMismatch
  | invalidUtf8
  | emptyTableName
  | emptyColumnName
  | emptyColumnType
  | tooManyItems (item : SnapshotItem)
  | fieldTooLarge (field : SnapshotField)
  | nonCanonicalTableOrder
  | nonCanonicalRowOrder
  | tableIdMismatch (table : String) (snapshotTableId derivedTableId : UInt32)
  | applyIndexBeyondSnapshot (latestSqlApplyIndex lastIncludedIndex : Nat)
  | timestampWithoutApplyIndex
  | trailingBytes
deriving DecidableEq

namespace Snapshot

open SnapshotCodecError

def magic : Bytes := utf8 "NBSN"
def replicatedSnapshotVersion : UInt8 := 1
def maxReplicatedSnapshotBytes : Nat := 512 * 1024 * 1024
def checksumBytes : Nat := 32
def maxTables : Nat := 100000
def maxColumnsPerTable : Nat := 4096
def maxRowsPerTable : Nat := 10000000
def maxFieldBytes : Nat := 64 * 1024 * 1024
def maxExtensionBytes : Nat := 16 * 1024 * 1024

section Checks

def validateMetadata (metadata : SnapshotMetadata) : Except SnapshotCodecError Unit :=
  if metadata.lastIncludedIndex < metadata.latestSqlApplyIndex then
    .error (applyIndexBeyondSnapshot metadata.latestSqlApplyIndex metadata.lastIncludedIndex)
  else if metadata.latestSqlApplyIndex = 0 ∧ metadata.latestCommitTs ≠ 0 then
    .error timestampWithoutApplyIndex
  else .ok ()

def validateExtension (extension : Bytes) : Except SnapshotCodecError Unit :=
  if maxExtensionBytes < extension.length then .error (fieldTooLarge .metadataExtension) else .ok ()

def validateField (field : SnapshotField) (value : Bytes) : Except SnapshotCodecError Unit :=
  if maxFieldBytes < value.length ∨ 2 ^ 32 ≤ value.length then .error (fieldTooLarge field) else .ok ()

def validateColumn (column : ColumnDef) : Except SnapshotCodecError Unit := do
  if utf8 column.name = [] then throw emptyColumnName
  if utf8 column.dataType = [] then throw emptyColumnType
  validateField .columnName (utf8 column.name)
  validateField .columnType (utf8 column.dataType)

def validateRow (row : SnapshotRow) : Except SnapshotCodecError Unit := do
  validateField .primaryKey row.primaryKey
  validateField .rowValue row.value

def checkSnapshotTableId (table : SnapshotTable) : Except SnapshotCodecError Unit :=
  if table.tableId ≠ tableIdFor table.schema.name then
    .error (tableIdMismatch table.schema.name table.tableId (tableIdFor table.schema.name))
  else .ok ()

def validateTable (table : SnapshotTable) : Except SnapshotCodecError Unit := do
  if utf8 table.schema.name = [] then throw emptyTableName
  if maxColumnsPerTable < table.schema.columns.length then throw (tooManyItems .columns)
  if maxRowsPerTable < table.rows.length then throw (tooManyItems .rows)
  forM table.schema.columns validateColumn
  validateField .tableName (utf8 table.schema.name)
  forM table.rows validateRow
  checkSnapshotTableId table

def ensureOrder (error : SnapshotCodecError) : List Bytes → Except SnapshotCodecError Unit
  | first :: second :: rest =>
    if second ≤ first then .error error else ensureOrder error (second :: rest)
  | _ => .ok ()

def ensureRowOrder (rows : List SnapshotRow) : Except SnapshotCodecError Unit :=
  ensureOrder nonCanonicalRowOrder (rows.map SnapshotRow.primaryKey)

def tableOrder (codec : SchemaCodec) (table : SnapshotTable) : Bytes := catalogKey codec table.schema.name

def ensureTableOrder (codec : SchemaCodec) (tables : List SnapshotTable) : Except SnapshotCodecError Unit :=
  ensureOrder nonCanonicalTableOrder (tables.map (tableOrder codec))

end Checks

section Writers

/-! `put_raw` refuses to grow the output past its limit.  No other error can follow, so
the one check at the end of `encode` gives the same answer. -/

def putCount (most : Nat) (item : SnapshotItem) (value : Nat) : Except SnapshotCodecError Bytes :=
  if most < value ∨ 2 ^ 32 ≤ value then .error (tooManyItems item) else .ok (toBeBytes 4 value)

def putBytesWithLimit (most : Nat) (field : SnapshotField) (value : Bytes) : Except SnapshotCodecError Bytes :=
  if most < value.length ∨ 2 ^ 32 ≤ value.length then .error (fieldTooLarge field)
  else .ok (toBeBytes 4 value.length ++ value)

def putBytes (field : SnapshotField) (value : Bytes) : Except SnapshotCodecError Bytes :=
  putBytesWithLimit maxFieldBytes field value

def putString (field : SnapshotField) (value : String) : Except SnapshotCodecError Bytes :=
  putBytes field (utf8 value)

def putColumn (column : ColumnDef) : Except SnapshotCodecError Bytes := do
  let name ← putString .columnName column.name
  let dataType ← putString .columnType column.dataType
  pure (name ++ dataType)

def putRow (row : SnapshotRow) : Except SnapshotCodecError Bytes := do
  let key ← putBytes .primaryKey row.primaryKey
  let value ← putBytes .rowValue row.value
  pure (key ++ value)

def putTable (table : SnapshotTable) : Except SnapshotCodecError Bytes := do
  let name ← putString .tableName table.schema.name
  let columnCount ← putCount maxColumnsPerTable .columns table.schema.columns.length
  let columns ← putMany putColumn table.schema.columns
  let rowCount ← putCount maxRowsPerTable .rows table.rows.length
  let rows ← putMany putRow table.rows
  pure (toBeBytes 4 table.tableId.toNat ++ (name ++ (columnCount ++ (columns ++ (rowCount ++ rows)))))

def putMetadata (metadata : SnapshotMetadata) : Bytes :=
  toBeBytes 8 metadata.lastIncludedIndex ++ (toBeBytes 8 metadata.lastIncludedTerm ++
    (toBeBytes 8 metadata.latestSqlApplyIndex ++ toBeBytes 8 metadata.latestCommitTs))

def sortRows (table : SnapshotTable) : SnapshotTable :=
  { table with rows := table.rows.insertionSort fun left right => left.primaryKey ≤ right.primaryKey }

def sortTables (codec : SchemaCodec) (tables : List SnapshotTable) : List SnapshotTable :=
  tables.insertionSort fun left right => tableOrder codec left ≤ tableOrder codec right

def canonicalTable (table : SnapshotTable) : Except SnapshotCodecError SnapshotTable := do
  validateTable table
  ensureRowOrder (sortRows table).rows
  pure (sortRows table)

end Writers

section Readers

def readCount (most : Nat) (item : SnapshotItem) : Reader SnapshotCodecError Nat := do
  let count ← .number unexpectedEof 4
  .lift (if most < count then .error (tooManyItems item) else .ok count)

def readBytesWithLimit (most : Nat) (field : SnapshotField) : Reader SnapshotCodecError Bytes := do
  let length ← .number unexpectedEof 4
  .lift (if most < length then .error (fieldTooLarge field) else .ok ())
  .take unexpectedEof length

def readBytes (field : SnapshotField) : Reader SnapshotCodecError Bytes :=
  readBytesWithLimit maxFieldBytes field

def readString (field : SnapshotField) : Reader SnapshotCodecError String := do
  let bytes ← readBytes field
  .lift ((fromUtf8 bytes).elim (.error invalidUtf8) .ok)

def readName (field : SnapshotField) (empty : SnapshotCodecError) : Reader SnapshotCodecError String := do
  let name ← readString field
  .lift (if utf8 name = [] then .error empty else .ok name)

def readColumn : Reader SnapshotCodecError ColumnDef := do
  let name ← readName .columnName emptyColumnName
  let dataType ← readName .columnType emptyColumnType
  pure { name, dataType }

def readRow : Reader SnapshotCodecError SnapshotRow := do
  let primaryKey ← readBytes .primaryKey
  let value ← readBytes .rowValue
  pure { primaryKey, value }

def readTable : Reader SnapshotCodecError SnapshotTable := do
  let tableId ← .number unexpectedEof 4
  let name ← readName .tableName emptyTableName
  let columnCount ← readCount maxColumnsPerTable .columns
  let columns ← readColumn.times columnCount
  let rowCount ← readCount maxRowsPerTable .rows
  let rows ← readRow.times rowCount
  .lift (ensureRowOrder rows)
  let table : SnapshotTable := { schema := { name, columns }, tableId := UInt32.ofNat tableId, rows }
  .lift ((validateTable table).map fun _ => table)

def readMetadata : Reader SnapshotCodecError SnapshotMetadata := do
  let lastIncludedIndex ← .number unexpectedEof 8
  let lastIncludedTerm ← .number unexpectedEof 8
  let latestSqlApplyIndex ← .number unexpectedEof 8
  let latestCommitTs ← .number unexpectedEof 8
  let metadata : SnapshotMetadata :=
    { lastIncludedIndex, lastIncludedTerm, latestSqlApplyIndex, latestCommitTs }
  .lift ((validateMetadata metadata).map fun _ => metadata)

def readSnapshot (codec : SchemaCodec) : Reader SnapshotCodecError ReplicatedSqlSnapshot := do
  let magicBytes ← .take unexpectedEof 4
  .lift (if magicBytes = magic then .ok () else .error invalidMagic)
  let version ← .u8 unexpectedEof
  .lift (if version = replicatedSnapshotVersion then .ok () else .error (unsupportedVersion version))
  let flags ← .u8 unexpectedEof
  .lift (if flags = 0 then .ok () else .error (unsupportedFlags flags))
  let metadata ← readMetadata
  let tableCount ← readCount maxTables .tables
  let tables ← readTable.times tableCount
  .lift (ensureTableOrder codec tables)
  let metadataExtension ← readBytesWithLimit maxExtensionBytes .metadataExtension
  pure { metadata, tables, metadataExtension }

end Readers

end Snapshot

namespace ReplicatedSqlSnapshot

open SnapshotCodecError Snapshot

variable (codec : SchemaCodec) (sha256 : Bytes → Digest)

def withChecksum (payload : Bytes) : Bytes := payload ++ (sha256 payload).val

def encode (snapshot : ReplicatedSqlSnapshot) : Except SnapshotCodecError Bytes := do
  validateMetadata snapshot.metadata
  validateExtension snapshot.metadataExtension
  let canonical ← snapshot.tables.mapM canonicalTable
  let tables := sortTables codec canonical
  ensureTableOrder codec tables
  let tableCount ← Snapshot.putCount maxTables .tables tables.length
  let body ← putMany putTable tables
  let extension ← putBytesWithLimit maxExtensionBytes .metadataExtension snapshot.metadataExtension
  let out := magic ++ ([replicatedSnapshotVersion] ++ ([0] ++ (putMetadata snapshot.metadata ++
    (tableCount ++ (body ++ extension)))))
  if maxReplicatedSnapshotBytes - checksumBytes < out.length then throw tooLarge
  pure (withChecksum sha256 out)

def decode (bytes : Bytes) : Except SnapshotCodecError ReplicatedSqlSnapshot :=
  if maxReplicatedSnapshotBytes < bytes.length then .error tooLarge
  else if bytes.length < checksumBytes then .error unexpectedEof
  else if (sha256 (bytes.take (bytes.length - checksumBytes))).val ≠
      bytes.drop (bytes.length - checksumBytes) then .error checksumMismatch
  else
    ((do
      let snapshot ← readSnapshot codec
      Reader.finished trailingBytes
      pure snapshot : Reader SnapshotCodecError ReplicatedSqlSnapshot)
        (bytes.take (bytes.length - checksumBytes))).map Prod.fst

end ReplicatedSqlSnapshot

namespace Snapshot

section RoundTrip

open SnapshotCodecError

variable {code : Bytes} {most : Nat} {field : SnapshotField} {table : SnapshotTable}

theorem reads_count {item : SnapshotItem} {count : Nat} (put : putCount most item count = .ok code) :
    (readCount most item).Reads code count := by
  unfold putCount at put
  split_ifs at put with refused
  cases put
  obtain ⟨few, short⟩ := not_or.mp refused
  exact (Reader.reads_number (not_le.mp short)).checked (if_neg few)

theorem inverts_bytes : Inverts (putBytesWithLimit most field) (readBytesWithLimit most field) := by
  intro value code put
  unfold putBytesWithLimit at put
  split_ifs at put with refused
  cases put
  obtain ⟨small, short⟩ := not_or.mp refused
  refine (Reader.reads_number (not_le.mp short)).bind ?_
  exact (Reader.reads_lift (if_neg small)).silent (Reader.reads_take rfl)

theorem reads_name {name : String} {empty : SnapshotCodecError} (named : utf8 name ≠ [])
    (put : putString field name = .ok code) : (readName field empty).Reads code name := by
  have text : (readString field).Reads code name :=
    (inverts_bytes _ _ put).checked (by rw [fromUtf8_utf8]; rfl)
  exact text.checked (if_neg named)

theorem reads_column {column : ColumnDef} (valid : validateColumn column = .ok ())
    (put : putColumn column = .ok code) : readColumn.Reads code column := by
  obtain ⟨named, valid⟩ := guard_eq_ok.mp valid
  obtain ⟨typed, _⟩ := guard_eq_ok.mp valid
  obtain ⟨name, first, put⟩ := bind_eq_ok.mp put
  obtain ⟨dataType, second, put⟩ := bind_eq_ok.mp put
  cases pure_eq_ok.mp put
  exact (reads_name named first).bind ((reads_name typed second).returning _)

theorem inverts_row : Inverts putRow readRow := by
  intro row code put
  obtain ⟨key, keyed, put⟩ := bind_eq_ok.mp put
  obtain ⟨value, valued, put⟩ := bind_eq_ok.mp put
  cases pure_eq_ok.mp put
  exact (inverts_bytes _ _ keyed).bind ((inverts_bytes _ _ valued).returning _)

theorem reads_table (valid : validateTable table = .ok ()) (ordered : ensureRowOrder table.rows = .ok ())
    (put : putTable table = .ok code) : readTable.Reads code table := by
  obtain ⟨named, checks⟩ := guard_eq_ok.mp valid
  obtain ⟨_, checks⟩ := guard_eq_ok.mp checks
  obtain ⟨_, checks⟩ := guard_eq_ok.mp checks
  have columns := forM_eq_ok.mp (check_eq_ok.mp checks).1
  obtain ⟨name, nameCode, put⟩ := bind_eq_ok.mp put
  obtain ⟨columnCount, countedColumns, put⟩ := bind_eq_ok.mp put
  obtain ⟨columnsCode, putColumns, put⟩ := bind_eq_ok.mp put
  obtain ⟨rowCount, countedRows, put⟩ := bind_eq_ok.mp put
  obtain ⟨rowsCode, putRows, put⟩ := bind_eq_ok.mp put
  cases pure_eq_ok.mp put
  refine (Reader.reads_number table.tableId.toNat_lt).bind ?_
  refine (reads_name named nameCode).bind ?_
  refine (reads_count countedColumns).bind ?_
  refine (reads_many (fun column inside _ => reads_column (columns column inside)) putColumns).bind ?_
  refine (reads_count countedRows).bind ?_
  refine (inverts_row.many putRows).settled ?_
  refine (Reader.reads_lift ordered).silent ?_
  rw [UInt32.ofNat_toNat]
  exact Reader.reads_lift (by rw [valid]; rfl)

theorem reads_metadata {metadata : SnapshotMetadata} (fits : metadata.Fits)
    (valid : validateMetadata metadata = .ok ()) : readMetadata.Reads (putMetadata metadata) metadata := by
  refine (Reader.reads_number fits.index).bind ?_
  refine (Reader.reads_number fits.term).bind ?_
  refine (Reader.reads_number fits.applied).bind ?_
  exact (Reader.reads_number fits.stamp).checked (by rw [valid]; rfl)

theorem canonicalTables {tables sorted : List SnapshotTable} (made : tables.mapM canonicalTable = .ok sorted) :
    sorted = tables.map sortRows ∧ ∀ table ∈ tables,
      validateTable table = .ok () ∧ ensureRowOrder (sortRows table).rows = .ok () := by
  have each := mapM_eq_ok.mp made
  clear made
  induction each with
  | nil => simp
  | cons made _ induction =>
    obtain ⟨valid, made⟩ := check_eq_ok.mp made
    obtain ⟨ordered, made⟩ := check_eq_ok.mp made
    cases pure_eq_ok.mp made
    exact ⟨congrArg _ induction.1, List.forall_mem_cons.mpr ⟨⟨valid, ordered⟩, induction.2⟩⟩

theorem validateTable_sortRows (valid : validateTable table = .ok ()) : validateTable (sortRows table) = .ok () := by
  obtain ⟨named, checks⟩ := guard_eq_ok.mp valid
  obtain ⟨columns, checks⟩ := guard_eq_ok.mp checks
  obtain ⟨rows, checks⟩ := guard_eq_ok.mp checks
  obtain ⟨typed, checks⟩ := check_eq_ok.mp checks
  obtain ⟨short, checks⟩ := check_eq_ok.mp checks
  obtain ⟨fits, checks⟩ := check_eq_ok.mp checks
  refine guard_eq_ok.mpr ⟨named, guard_eq_ok.mpr ⟨columns, guard_eq_ok.mpr ⟨?_, ?_⟩⟩⟩
  · rwa [sortRows, List.length_insertionSort]
  · refine check_eq_ok.mpr ⟨typed, check_eq_ok.mpr ⟨short, check_eq_ok.mpr ⟨?_, checks⟩⟩⟩
    exact forM_eq_ok.mpr fun row inside => forM_eq_ok.mp fits row ((List.mem_insertionSort _).mp inside)

end RoundTrip

end Snapshot

namespace ReplicatedSqlSnapshot

open Snapshot

variable {codec : SchemaCodec} {sha256 : Bytes → Digest} {snapshot : ReplicatedSqlSnapshot} {bytes : Bytes}

def canonical (codec : SchemaCodec) (snapshot : ReplicatedSqlSnapshot) : ReplicatedSqlSnapshot :=
  { snapshot with tables := sortTables codec (snapshot.tables.map sortRows) }

theorem decode_withChecksum {payload : Bytes} (short : ¬ maxReplicatedSnapshotBytes - checksumBytes < payload.length)
    (reads : (readSnapshot codec).Reads payload snapshot) :
    decode codec sha256 (withChecksum sha256 payload) = .ok snapshot := by
  have length : (withChecksum sha256 payload).length = payload.length + checksumBytes := by
    simp [withChecksum, (sha256 payload).property, checksumBytes]
  have fits : ¬ maxReplicatedSnapshotBytes < (withChecksum sha256 payload).length := by
    rw [length]
    unfold maxReplicatedSnapshotBytes checksumBytes at *
    omega
  have long : ¬ (withChecksum sha256 payload).length < checksumBytes := by omega
  have cut : (withChecksum sha256 payload).length - checksumBytes = payload.length := by omega
  have body : (withChecksum sha256 payload).take payload.length = payload := List.take_left
  have checksum : (withChecksum sha256 payload).drop payload.length = (sha256 payload).val :=
    List.drop_left
  rw [decode, if_neg fits, if_neg long, cut, body, checksum, if_neg (not_not.mpr rfl), reads.whole]
  rfl

theorem decode_encode (fits : snapshot.metadata.Fits) (encoded : encode codec sha256 snapshot = .ok bytes) :
    decode codec sha256 bytes = .ok (snapshot.canonical codec) := by
  obtain ⟨valid, encoded⟩ := check_eq_ok.mp encoded
  obtain ⟨_, encoded⟩ := check_eq_ok.mp encoded
  obtain ⟨tables, made, encoded⟩ := bind_eq_ok.mp encoded
  obtain ⟨ordered, encoded⟩ := check_eq_ok.mp encoded
  obtain ⟨count, counted, encoded⟩ := bind_eq_ok.mp encoded
  obtain ⟨body, put, encoded⟩ := bind_eq_ok.mp encoded
  obtain ⟨extension, extended, encoded⟩ := bind_eq_ok.mp encoded
  obtain ⟨short, encoded⟩ := guard_eq_ok.mp encoded
  cases pure_eq_ok.mp encoded
  obtain ⟨rfl, checked⟩ := canonicalTables made
  have sound : ∀ table ∈ sortTables codec (snapshot.tables.map sortRows), ∀ code,
      putTable table = .ok code → Snapshot.readTable.Reads code table := by
    intro table inside code
    obtain ⟨source, member, rfl⟩ := List.mem_map.mp ((List.mem_insertionSort _).mp inside)
    exact Snapshot.reads_table (validateTable_sortRows (checked source member).1) (checked source member).2
  refine decode_withChecksum short ?_
  refine (Reader.reads_take (by decide)).bind ?_
  refine (Reader.reads_lift (if_pos rfl)).silent ?_
  refine (Reader.reads_u8 _).bind ?_
  refine (Reader.reads_lift (if_pos rfl)).silent ?_
  refine (Reader.reads_u8 _).bind ?_
  refine (Reader.reads_lift (if_pos rfl)).silent ?_
  refine (reads_metadata fits valid).bind ?_
  refine (reads_count counted).bind ?_
  refine (reads_many sound put).bind ?_
  refine (Reader.reads_lift ordered).silent ?_
  exact (Snapshot.inverts_bytes _ _ extended).returning _

theorem canonical_eq
    (tables : snapshot.tables.Pairwise fun left right => tableOrder codec left < tableOrder codec right)
    (rows : ∀ table ∈ snapshot.tables,
      table.rows.Pairwise fun left right => left.primaryKey < right.primaryKey) :
    snapshot.canonical codec = snapshot := by
  have sorted : snapshot.tables.map sortRows = snapshot.tables := by
    refine (List.map_congr_left fun table inside => ?_).trans (List.map_id _)
    rw [sortRows, List.Pairwise.insertionSort_eq ((rows table inside).imp fun below => below.le)]
    rfl
  have ordered : sortTables codec snapshot.tables = snapshot.tables :=
    List.Pairwise.insertionSort_eq (tables.imp fun below => below.le)
  rw [canonical, sorted, ordered]

end ReplicatedSqlSnapshot

end Neuralbase.Replicated
