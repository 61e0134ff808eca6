import Neuralbase.Catalog
import Neuralbase.Library.Wire
import Mathlib

namespace Neuralbase.Replicated

open Neuralbase.Library
open Neuralbase.Consensus (Bytes)

/-! Commands for replicated SQL mutations and their wire format (`replicated_sql.rs`). -/

structure ReplicatedRowWrite where
  primaryKey : Bytes
  /-- Exact storage value bytes, encoded once on the leader. -/
  value : Bytes
deriving DecidableEq

inductive ReplicatedMutation where
  | createTable (schema : TableSchema)
  | dropTable (table : String) (tableId : UInt32)
  | insertRows (table : String) (tableId : UInt32) (commitTs : Nat) (rows : List ReplicatedRowWrite)
  | updateRows (table : String) (tableId : UInt32) (commitTs : Nat) (rows : List ReplicatedRowWrite)
  | deleteRows (table : String) (tableId : UInt32) (commitTs : Nat) (primaryKeys : List Bytes)
deriving DecidableEq

inductive MutationCodecError where
  | tooLarge
  | unexpectedEof
  | invalidMagic
  | unsupportedVersion (version : UInt8)
  | unknownOpcode (opcode : UInt8)
  | invalidUtf8
  | tooManyItems
  | emptyTableName
  | zeroCommitTimestamp
  | nonCanonicalRowOrder
  | trailingBytes
  | fieldTooLarge
deriving DecidableEq

def mutationMagic : Bytes := utf8 "NBRM"
def replicatedMutationVersion : UInt8 := 1
def maxReplicatedMutationBytes : Nat := 16 * 1024 * 1024
def maxItems : Nat := 1000000

def isReplicatedMutation (bytes : Bytes) : Bool := mutationMagic.isPrefixOf bytes

section Checks

open MutationCodecError

def validateTableName (table : String) : Except MutationCodecError Unit :=
  if utf8 table = [] then .error emptyTableName else .ok ()

def validateCommitTs (commitTs : Nat) : Except MutationCodecError Unit :=
  if commitTs = 0 then .error zeroCommitTimestamp else .ok ()

def ensureStrictKeyOrder : List Bytes → Except MutationCodecError Unit
  | first :: second :: rest =>
    if second ≤ first then .error nonCanonicalRowOrder else ensureStrictKeyOrder (second :: rest)
  | _ => .ok ()

def ensureRowWriteOrder (rows : List ReplicatedRowWrite) : Except MutationCodecError Unit :=
  ensureStrictKeyOrder (rows.map ReplicatedRowWrite.primaryKey)

end Checks

section Writers

open MutationCodecError

def putBytes (value : Bytes) : Except MutationCodecError Bytes := putBlob fieldTooLarge value

def putString (value : String) : Except MutationCodecError Bytes := putBytes (utf8 value)

def putCount (value : Nat) : Except MutationCodecError Bytes :=
  if maxItems < value then .error tooManyItems else .ok (toBeBytes 4 value)

def putColumn (column : ColumnDef) : Except MutationCodecError Bytes := do
  let name ← putString column.name
  let dataType ← putString column.dataType
  pure (name ++ dataType)

def putRow (row : ReplicatedRowWrite) : Except MutationCodecError Bytes := do
  let key ← putBytes row.primaryKey
  let value ← putBytes row.value
  pure (key ++ value)

def encodeRowWrites (opcode : UInt8) (table : String) (tableId : UInt32) (commitTs : Nat)
    (rows : List ReplicatedRowWrite) : Except MutationCodecError Bytes := do
  validateTableName table
  validateCommitTs commitTs
  let name ← putString table
  let canonical := rows.insertionSort fun left right => left.primaryKey ≤ right.primaryKey
  ensureRowWriteOrder canonical
  let count ← putCount canonical.length
  let body ← putMany putRow canonical
  pure ([opcode] ++ (name ++ (toBeBytes 4 tableId.toNat ++ (toBeBytes 8 commitTs ++ (count ++ body)))))

end Writers

namespace ReplicatedMutation

open MutationCodecError

def encodeBody : ReplicatedMutation → Except MutationCodecError Bytes
  | .createTable schema => do
      validateTableName schema.name
      let name ← putString schema.name
      let count ← putCount schema.columns.length
      let columns ← putMany putColumn schema.columns
      pure ([1] ++ (name ++ (count ++ columns)))
  | .dropTable table tableId => do
      validateTableName table
      let name ← putString table
      pure ([2] ++ (name ++ toBeBytes 4 tableId.toNat))
  | .insertRows table tableId commitTs rows => encodeRowWrites 3 table tableId commitTs rows
  | .updateRows table tableId commitTs rows => encodeRowWrites 4 table tableId commitTs rows
  | .deleteRows table tableId commitTs primaryKeys => do
      validateTableName table
      validateCommitTs commitTs
      let name ← putString table
      let keys := primaryKeys.insertionSort (· ≤ ·)
      ensureStrictKeyOrder keys
      let count ← putCount keys.length
      let body ← putMany putBytes keys
      pure ([5] ++ (name ++ (toBeBytes 4 tableId.toNat ++ (toBeBytes 8 commitTs ++ (count ++ body)))))

def encode (mutation : ReplicatedMutation) : Except MutationCodecError Bytes := do
  let body ← mutation.encodeBody
  let out := mutationMagic ++ ([replicatedMutationVersion] ++ body)
  if maxReplicatedMutationBytes < out.length then throw tooLarge
  pure out

end ReplicatedMutation

section Readers

open MutationCodecError

def readBytes : Reader MutationCodecError Bytes := .blob unexpectedEof

def readString : Reader MutationCodecError String := do
  let bytes ← readBytes
  .lift ((fromUtf8 bytes).elim (.error invalidUtf8) .ok)

def readCount : Reader MutationCodecError Nat := do
  let count ← .number unexpectedEof 4
  .lift (if maxItems < count then .error tooManyItems else .ok count)

def readTable : Reader MutationCodecError String := do
  let table ← readString
  .lift ((validateTableName table).map fun _ => table)

def readTableId : Reader MutationCodecError UInt32 := do
  let value ← .number unexpectedEof 4
  pure (UInt32.ofNat value)

def readCommitTs : Reader MutationCodecError Nat := do
  let commitTs ← .number unexpectedEof 8
  .lift ((validateCommitTs commitTs).map fun _ => commitTs)

def readColumn : Reader MutationCodecError ColumnDef := do
  let name ← readString
  let dataType ← readString
  pure { name, dataType }

def readRow : Reader MutationCodecError ReplicatedRowWrite := do
  let primaryKey ← readBytes
  let value ← readBytes
  pure { primaryKey, value }

def readItems {α : Type} (item : Reader MutationCodecError α) : Reader MutationCodecError (List α) := do
  let count ← readCount
  item.times count

def readRows : Reader MutationCodecError (List ReplicatedRowWrite) := do
  let rows ← readItems readRow
  .lift ((ensureRowWriteOrder rows).map fun _ => rows)

def readKeys : Reader MutationCodecError (List Bytes) := do
  let keys ← readItems readBytes
  .lift ((ensureStrictKeyOrder keys).map fun _ => keys)

def readRowWrites (make : String → UInt32 → Nat → List ReplicatedRowWrite → ReplicatedMutation) :
    Reader MutationCodecError ReplicatedMutation := do
  let table ← readTable
  let tableId ← readTableId
  let commitTs ← readCommitTs
  let rows ← readRows
  pure (make table tableId commitTs rows)

def readFields (opcode : UInt8) : Reader MutationCodecError ReplicatedMutation :=
  if opcode = 1 then do
    let name ← readTable
    let columns ← readItems readColumn
    pure (.createTable { name, columns })
  else if opcode = 2 then do
    let table ← readTable
    let tableId ← readTableId
    pure (.dropTable table tableId)
  else if opcode = 3 then readRowWrites .insertRows
  else if opcode = 4 then readRowWrites .updateRows
  else if opcode = 5 then do
    let table ← readTable
    let tableId ← readTableId
    let commitTs ← readCommitTs
    let primaryKeys ← readKeys
    pure (.deleteRows table tableId commitTs primaryKeys)
  else .lift (.error (unknownOpcode opcode))

def readMutation : Reader MutationCodecError ReplicatedMutation := do
  let magic ← .take unexpectedEof 4
  .lift (if magic = mutationMagic then .ok () else .error invalidMagic)
  let version ← .u8 unexpectedEof
  .lift (if version = replicatedMutationVersion then .ok () else .error (unsupportedVersion version))
  let opcode ← .u8 unexpectedEof
  readFields opcode

end Readers

namespace ReplicatedMutation

def decode (bytes : Bytes) : Except MutationCodecError ReplicatedMutation :=
  if maxReplicatedMutationBytes < bytes.length then .error .tooLarge
  else
    ((do
      let mutation ← readMutation
      Reader.finished .trailingBytes
      pure mutation : Reader MutationCodecError ReplicatedMutation) bytes).map Prod.fst

def commandTag : ReplicatedMutation → String
  | .createTable _ => "CREATE TABLE"
  | .dropTable _ _ => "DROP TABLE"
  | .insertRows _ _ _ _ => "INSERT"
  | .updateRows _ _ _ _ => "UPDATE"
  | .deleteRows _ _ _ _ => "DELETE"

def affectedRows : ReplicatedMutation → Option Nat
  | .insertRows _ _ _ rows | .updateRows _ _ _ rows => some rows.length
  | .deleteRows _ _ _ primaryKeys => some primaryKeys.length
  | .createTable _ | .dropTable _ _ => none

def commitTs : ReplicatedMutation → Option Nat
  | .insertRows _ _ commitTs _ | .updateRows _ _ commitTs _ | .deleteRows _ _ commitTs _ =>
    some commitTs
  | .createTable _ | .dropTable _ _ => none

end ReplicatedMutation

section RoundTrip

open MutationCodecError

variable {code count body : Bytes} {table : String} {α : Type} {mutation : ReplicatedMutation}

theorem inverts_bytes : Inverts putBytes readBytes := inverts_blob

theorem inverts_string : Inverts putString readString := by
  intro text code put
  exact (inverts_bytes (utf8 text) code put).checked (by rw [fromUtf8_utf8]; rfl)

theorem inverts_column : Inverts putColumn readColumn := by
  intro column code put
  obtain ⟨name, named, put⟩ := bind_eq_ok.mp put
  obtain ⟨dataType, typed, put⟩ := bind_eq_ok.mp put
  cases pure_eq_ok.mp put
  exact (inverts_string _ _ named).bind ((inverts_string _ _ typed).returning _)

theorem inverts_row : Inverts putRow readRow := by
  intro row code put
  obtain ⟨key, keyed, put⟩ := bind_eq_ok.mp put
  obtain ⟨value, valued, put⟩ := bind_eq_ok.mp put
  cases pure_eq_ok.mp put
  exact (inverts_bytes _ _ keyed).bind ((inverts_bytes _ _ valued).returning _)

theorem reads_items {put : α → Except MutationCodecError Bytes} {item : Reader MutationCodecError α}
    {values : List α} (inverts : Inverts put item) (counted : putCount values.length = .ok count)
    (encoded : putMany put values = .ok body) : (readItems item).Reads (count ++ body) values := by
  unfold putCount at counted
  split_ifs at counted with many
  cases counted
  have bounded : values.length < 256 ^ 4 := by
    unfold maxItems at many
    omega
  have read : readCount.Reads (toBeBytes 4 values.length) values.length :=
    (Reader.reads_number bounded).checked (by rw [if_neg many])
  exact read.bind (inverts.many encoded)

theorem reads_table (valid : validateTableName table = .ok ()) (put : putString table = .ok code) :
    readTable.Reads code table :=
  (inverts_string _ _ put).checked (by rw [valid]; rfl)

theorem reads_tableId (tableId : UInt32) : readTableId.Reads (toBeBytes 4 tableId.toNat) tableId := by
  have read : readTableId.Reads (toBeBytes 4 tableId.toNat) (UInt32.ofNat tableId.toNat) :=
    (Reader.reads_number tableId.toNat_lt).returning UInt32.ofNat
  rwa [UInt32.ofNat_toNat] at read

theorem reads_commitTs {commitTs : Nat} (valid : validateCommitTs commitTs = .ok ())
    (fits : commitTs < 2 ^ 64) : readCommitTs.Reads (toBeBytes 8 commitTs) commitTs :=
  (Reader.reads_number fits).checked (by rw [valid]; rfl)

def ReplicatedMutation.canonical : ReplicatedMutation → ReplicatedMutation
  | .insertRows table tableId commitTs rows =>
    .insertRows table tableId commitTs
      (rows.insertionSort fun left right => left.primaryKey ≤ right.primaryKey)
  | .updateRows table tableId commitTs rows =>
    .updateRows table tableId commitTs
      (rows.insertionSort fun left right => left.primaryKey ≤ right.primaryKey)
  | .deleteRows table tableId commitTs primaryKeys =>
    .deleteRows table tableId commitTs (primaryKeys.insertionSort (· ≤ ·))
  | mutation => mutation

theorem reads_rowWrites {opcode : UInt8} {tableId : UInt32} {commitTs : Nat}
    {rows : List ReplicatedRowWrite}
    (make : String → UInt32 → Nat → List ReplicatedRowWrite → ReplicatedMutation)
    (fits : commitTs < 2 ^ 64) (put : encodeRowWrites opcode table tableId commitTs rows = .ok code) :
    ∃ body, code = [opcode] ++ body ∧ (readRowWrites make).Reads body
      (make table tableId commitTs
        (rows.insertionSort fun left right => left.primaryKey ≤ right.primaryKey)) := by
  obtain ⟨⟨⟩, valid, put⟩ := bind_eq_ok.mp put
  obtain ⟨⟨⟩, stamped, put⟩ := bind_eq_ok.mp put
  obtain ⟨name, named, put⟩ := bind_eq_ok.mp put
  obtain ⟨⟨⟩, ordered, put⟩ := bind_eq_ok.mp put
  obtain ⟨count, counted, put⟩ := bind_eq_ok.mp put
  obtain ⟨items, encoded, put⟩ := bind_eq_ok.mp put
  cases pure_eq_ok.mp put
  have rows : readRows.Reads (count ++ items) _ :=
    (reads_items inverts_row counted encoded).checked (by rw [ordered]; rfl)
  exact ⟨_, rfl, (reads_table valid named).bind ((reads_tableId tableId).bind
    ((reads_commitTs stamped fits).bind (rows.returning _)))⟩

theorem reads_deleteRows {tableId : UInt32} {commitTs : Nat} {primaryKeys : List Bytes} (fits : commitTs < 2 ^ 64)
    (put : (ReplicatedMutation.deleteRows table tableId commitTs primaryKeys).encodeBody = .ok code) :
    ∃ body, code = [5] ++ body ∧ (readFields 5).Reads body
      (.deleteRows table tableId commitTs (primaryKeys.insertionSort (· ≤ ·))) := by
  obtain ⟨⟨⟩, valid, put⟩ := bind_eq_ok.mp put
  obtain ⟨⟨⟩, stamped, put⟩ := bind_eq_ok.mp put
  obtain ⟨name, named, put⟩ := bind_eq_ok.mp put
  obtain ⟨⟨⟩, ordered, put⟩ := bind_eq_ok.mp put
  obtain ⟨count, counted, put⟩ := bind_eq_ok.mp put
  obtain ⟨items, encoded, put⟩ := bind_eq_ok.mp put
  cases pure_eq_ok.mp put
  have keys : readKeys.Reads (count ++ items) _ :=
    (reads_items inverts_bytes counted encoded).checked (by rw [ordered]; rfl)
  exact ⟨_, rfl, (reads_table valid named).bind ((reads_tableId tableId).bind
    ((reads_commitTs stamped fits).bind (keys.returning _)))⟩

theorem reads_fields (fits : ∀ commitTs ∈ mutation.commitTs, commitTs < 2 ^ 64) (put : mutation.encodeBody = .ok code) :
    ∃ opcode body, code = [opcode] ++ body ∧ (readFields opcode).Reads body mutation.canonical := by
  cases mutation with
  | createTable schema =>
    obtain ⟨⟨⟩, valid, put⟩ := bind_eq_ok.mp put
    obtain ⟨name, named, put⟩ := bind_eq_ok.mp put
    obtain ⟨count, counted, put⟩ := bind_eq_ok.mp put
    obtain ⟨columns, encoded, put⟩ := bind_eq_ok.mp put
    cases pure_eq_ok.mp put
    exact ⟨1, _, rfl, (reads_table valid named).bind
      ((reads_items inverts_column counted encoded).returning _)⟩
  | dropTable table tableId =>
    obtain ⟨⟨⟩, valid, put⟩ := bind_eq_ok.mp put
    obtain ⟨name, named, put⟩ := bind_eq_ok.mp put
    cases pure_eq_ok.mp put
    exact ⟨2, _, rfl, (reads_table valid named).bind ((reads_tableId tableId).returning _)⟩
  | insertRows table tableId commitTs rows =>
    obtain ⟨body, same, reads⟩ := reads_rowWrites .insertRows (fits _ rfl) put
    exact ⟨3, body, same, reads⟩
  | updateRows table tableId commitTs rows =>
    obtain ⟨body, same, reads⟩ := reads_rowWrites .updateRows (fits _ rfl) put
    exact ⟨4, body, same, reads⟩
  | deleteRows table tableId commitTs primaryKeys =>
    obtain ⟨body, same, reads⟩ := reads_deleteRows (fits _ rfl) put
    exact ⟨5, body, same, reads⟩

theorem ReplicatedMutation.decode_encode (fits : ∀ commitTs ∈ mutation.commitTs, commitTs < 2 ^ 64)
    (encoded : mutation.encode = .ok code) : ReplicatedMutation.decode code = .ok mutation.canonical := by
  obtain ⟨fields, put, encoded⟩ := bind_eq_ok.mp encoded
  obtain ⟨short, encoded⟩ := guard_eq_ok.mp encoded
  cases pure_eq_ok.mp encoded
  obtain ⟨opcode, body, rfl, reads⟩ := reads_fields fits put
  have whole : readMutation.Reads (mutationMagic ++ ([replicatedMutationVersion] ++ ([opcode] ++ body)))
      mutation.canonical := by
    refine (Reader.reads_take (by decide)).bind ?_
    refine (Reader.reads_lift (if_pos rfl)).silent ?_
    refine (Reader.reads_u8 _).bind ?_
    refine (Reader.reads_lift (if_pos rfl)).silent ?_
    exact (Reader.reads_u8 opcode).bind reads
  rw [ReplicatedMutation.decode, if_neg short, whole.whole]
  rfl

theorem ReplicatedMutation.isReplicatedMutation_encode (encoded : mutation.encode = .ok code) :
    isReplicatedMutation code = true := by
  obtain ⟨fields, put, encoded⟩ := bind_eq_ok.mp encoded
  obtain ⟨short, encoded⟩ := guard_eq_ok.mp encoded
  cases pure_eq_ok.mp encoded
  exact List.isPrefixOf_iff_prefix.mpr (List.prefix_append _ _)

end RoundTrip

def ReplicatedMutation.TsFits (mutation : ReplicatedMutation) : Prop :=
  ∀ commitTs ∈ mutation.commitTs, commitTs < 2 ^ 64

end Neuralbase.Replicated
