import Mathlib
import Neuralbase.Library.KeySort
import Neuralbase.Replicated.Sql

namespace Neuralbase.Replicated

open Neuralbase.Library
open Neuralbase.Consensus (Bytes)
open ReplicatedMutation

/-! The wire format of replicated mutations is canonical (`replicated_sql.rs`): a mutation has
an encoding exactly within the limits of the format, mutations that differ in the order of
their rows have the same one, and every accepted message is the encoding of what it is
decoded to. -/

section Order

variable {α : Type} {key : α → Bytes} {keys : List Bytes} {items others : List α}

theorem ensureStrictKeyOrder_eq_ok : ensureStrictKeyOrder keys = .ok () ↔ keys.Pairwise (· < ·) := by
  rw [← List.isChain_iff_pairwise]
  induction keys with
  | nil => simp [ensureStrictKeyOrder]
  | cons first rest induction =>
    cases rest with
    | nil => simp [ensureStrictKeyOrder]
    | cons second rest =>
      rw [ensureStrictKeyOrder, List.isChain_cons_cons, ← induction]
      by_cases below : second ≤ first
      · simp [below]
      · simp [below, not_le.mp below]

theorem ensureStrictKeyOrder_cases (keys : List Bytes) :
    ensureStrictKeyOrder keys = .ok () ∨ ensureStrictKeyOrder keys = .error .nonCanonicalRowOrder := by
  induction keys with
  | nil => exact .inl rfl
  | cons first rest induction =>
    cases rest with
    | nil => exact .inl rfl
    | cons second rest =>
      rw [ensureStrictKeyOrder]
      split
      · exact .inr rfl
      · exact induction

theorem ensureStrictKeyOrder_sort :
    ensureStrictKeyOrder ((items.insertionSort fun left right => key left ≤ key right).map key) = .ok () ↔
      (items.map key).Nodup := by
  rw [ensureStrictKeyOrder_eq_ok, List.pairwise_map, keySort_strict]

theorem sorted_or_refused (perm : items.Perm others) :
    (items.insertionSort fun left right => key left ≤ key right) =
        (others.insertionSort fun left right => key left ≤ key right) ∨
      ensureStrictKeyOrder ((items.insertionSort fun left right => key left ≤ key right).map key) =
          .error .nonCanonicalRowOrder ∧
        ensureStrictKeyOrder ((others.insertionSort fun left right => key left ≤ key right).map key) =
          .error .nonCanonicalRowOrder := by
  by_cases distinct : (items.map key).Nodup
  · exact .inl (keySort_congr perm distinct)
  · have twice := mt (perm.map key).nodup_iff.mpr distinct
    exact .inr ⟨(ensureStrictKeyOrder_cases _).resolve_left (mt ensureStrictKeyOrder_sort.mp distinct),
      (ensureStrictKeyOrder_cases _).resolve_left (mt ensureStrictKeyOrder_sort.mp twice)⟩

end Order

section WriteSets

variable {α : Type} (key : α → Bytes) (put : α → Except MutationCodecError Bytes)

/-- What the mutations with rows and those with keys have in common: items in the order of
their keys. -/
def encodeWriteSet (opcode : UInt8) (table : String) (tableId : UInt32) (commitTs : Nat) (items : List α) :
    Except MutationCodecError Bytes := do
  validateTableName table
  validateCommitTs commitTs
  let name ← putString table
  let canonical := items.insertionSort fun left right => key left ≤ key right
  ensureStrictKeyOrder (canonical.map key)
  let count ← putCount canonical.length
  let body ← putMany put canonical
  pure ([opcode] ++ (name ++ (toBeBytes 4 tableId.toNat ++ (toBeBytes 8 commitTs ++ (count ++ body)))))

variable {key put} {opcode : UInt8} {table : String} {tableId : UInt32} {commitTs : Nat} {items others : List α}

theorem encodeRowWrites_eq {rows : List ReplicatedRowWrite} : encodeRowWrites opcode table tableId commitTs rows =
    encodeWriteSet ReplicatedRowWrite.primaryKey putRow opcode table tableId commitTs rows := rfl

theorem encodeBody_deleteRows {keys : List Bytes} : (ReplicatedMutation.deleteRows table tableId commitTs keys).encodeBody =
    encodeWriteSet id putBytes 5 table tableId commitTs keys := by
  simp only [encodeBody, encodeWriteSet, List.map_id, id]

theorem encodeWriteSet_perm (perm : items.Perm others) : encodeWriteSet key put opcode table tableId commitTs items =
    encodeWriteSet key put opcode table tableId commitTs others := by
  unfold encodeWriteSet
  rcases @sorted_or_refused _ key _ _ perm with same | ⟨left, right⟩
  · rw [same]
  · simp only [left, right]
    rfl

theorem encodeWriteSet_ordered {name count body : Bytes} (valid : validateTableName table = .ok ())
    (nonzero : validateCommitTs commitTs = .ok ()) (named : putString table = .ok name)
    (ordered : ensureStrictKeyOrder (items.map key) = .ok ()) (counted : putCount items.length = .ok count)
    (encoded : putMany put items = .ok body) : encodeWriteSet key put opcode table tableId commitTs items =
      .ok ([opcode] ++ (name ++ (toBeBytes 4 tableId.toNat ++ (toBeBytes 8 commitTs ++ (count ++ body))))) := by
  have sorted : (items.insertionSort fun left right => key left ≤ key right) = items :=
    List.Pairwise.insertionSort_eq ((List.pairwise_map.mp (ensureStrictKeyOrder_eq_ok.mp ordered)).imp fun below => below.le)
  rw [encodeWriteSet, sorted]
  exact check_eq_ok.mpr ⟨valid, check_eq_ok.mpr ⟨nonzero, bind_eq_ok.mpr ⟨name, named, check_eq_ok.mpr ⟨ordered,
    bind_eq_ok.mpr ⟨count, counted, bind_eq_ok.mpr ⟨body, encoded, rfl⟩⟩⟩⟩⟩⟩

end WriteSets

section Restores

open MutationCodecError

theorem restores_bytes : Restores putBytes readBytes := restores_blob

theorem restores_string : Restores putString readString := by
  refine restores_bytes.bind fun code bytes put => Reader.takes_lift fun text read => ?_
  rw [List.append_nil, putString, utf8_of_accepted read]
  exact put

theorem restores_column : Restores putColumn readColumn := by
  refine restores_string.bind fun name value named => restores_string.bind fun dataType value typed =>
    Reader.takes_pure ?_
  rw [List.append_nil]
  exact bind_eq_ok.mpr ⟨name, named, bind_eq_ok.mpr ⟨dataType, typed, rfl⟩⟩

theorem restores_row : Restores putRow readRow := by
  refine restores_bytes.bind fun key value keyed => restores_bytes.bind fun bytes value valued =>
    Reader.takes_pure ?_
  rw [List.append_nil]
  exact bind_eq_ok.mpr ⟨key, keyed, bind_eq_ok.mpr ⟨bytes, valued, rfl⟩⟩

theorem takes_table : readTable.Takes fun code table =>
    putString table = .ok code ∧ ∃ result, validateTableName table = .ok result :=
  restores_string.vetted

theorem takes_tableId : readTableId.Takes fun code tableId => code = toBeBytes 4 tableId.toNat := by
  refine Reader.takes_number.bind fun code value holds => Reader.takes_pure ?_
  obtain ⟨rfl, bounded⟩ := holds
  rw [List.append_nil, UInt32.toNat_ofNat_of_lt' bounded]

theorem takes_commitTs : readCommitTs.Takes fun code commitTs =>
    (code = toBeBytes 8 commitTs ∧ commitTs < 256 ^ 8) ∧ ∃ result, validateCommitTs commitTs = .ok result :=
  Reader.takes_number.vetted

theorem takes_items {α : Type} {put : α → Except MutationCodecError Bytes} {item : Reader MutationCodecError α}
    (restores : Restores put item) : (readItems item).Takes fun code values =>
      ∃ count body, putCount values.length = .ok count ∧ putMany put values = .ok body ∧ code = count ++ body := by
  have counted : readCount.Takes fun code count => putCount count = .ok code := by
    refine Reader.takes_number.bind fun code value holds => Reader.takes_lift fun count few => ?_
    obtain ⟨rfl, bounded⟩ := holds
    split_ifs at few with many
    cases few
    rw [List.append_nil, putCount, if_neg many]
  refine counted.bind fun code count put => ?_
  intro bytes values rest read
  obtain ⟨body, rfl, encoded, rfl⟩ := restores.many count bytes values rest read
  exact ⟨body, rfl, code, body, put, encoded, rfl⟩

theorem takes_rows : readRows.Takes fun code rows =>
    (∃ count body, putCount rows.length = .ok count ∧ putMany putRow rows = .ok body ∧ code = count ++ body) ∧
      ∃ result, ensureRowWriteOrder rows = .ok result :=
  (takes_items restores_row).vetted

theorem takes_keys : readKeys.Takes fun code keys =>
    (∃ count body, putCount keys.length = .ok count ∧ putMany putBytes keys = .ok body ∧ code = count ++ body) ∧
      ∃ result, ensureStrictKeyOrder keys = .ok result :=
  (takes_items restores_bytes).vetted

theorem takes_rowWrites (opcode : UInt8)
    (make : String → UInt32 → Nat → List ReplicatedRowWrite → ReplicatedMutation)
    (encodes : ∀ table tableId commitTs rows, (make table tableId commitTs rows).encodeBody =
      encodeRowWrites opcode table tableId commitTs rows) :
    (readRowWrites make).Takes fun code mutation => mutation.encodeBody = .ok ([opcode] ++ code) := by
  refine takes_table.bind fun name table named => takes_tableId.bind fun id tableId same =>
    takes_commitTs.bind fun stamp commitTs stamped => takes_rows.bind fun code rows items => Reader.takes_pure ?_
  obtain ⟨put, ⟨⟩, valid⟩ := named
  obtain ⟨⟨rfl, _⟩, ⟨⟩, nonzero⟩ := stamped
  obtain ⟨⟨count, body, counted, encoded, rfl⟩, ⟨⟩, ordered⟩ := items
  rw [List.append_nil, encodes, encodeRowWrites_eq, same]
  exact encodeWriteSet_ordered valid nonzero put ordered counted encoded

theorem takes_fields (opcode : UInt8) :
    (readFields opcode).Takes fun code mutation => mutation.encodeBody = .ok ([opcode] ++ code) := by
  unfold readFields
  split_ifs with create drop insert update delete
  · subst create
    refine takes_table.bind fun name table named => (takes_items restores_column).bind fun code columns items =>
      Reader.takes_pure ?_
    obtain ⟨put, ⟨⟩, valid⟩ := named
    obtain ⟨count, body, counted, encoded, rfl⟩ := items
    rw [List.append_nil]
    exact check_eq_ok.mpr ⟨valid, bind_eq_ok.mpr ⟨name, put, bind_eq_ok.mpr ⟨count, counted,
      bind_eq_ok.mpr ⟨body, encoded, rfl⟩⟩⟩⟩
  · subst drop
    refine takes_table.bind fun name table named => takes_tableId.bind fun id tableId same => Reader.takes_pure ?_
    obtain ⟨put, ⟨⟩, valid⟩ := named
    rw [List.append_nil, same]
    exact check_eq_ok.mpr ⟨valid, bind_eq_ok.mpr ⟨name, put, rfl⟩⟩
  · subst insert
    exact takes_rowWrites 3 .insertRows fun _ _ _ _ => rfl
  · subst update
    exact takes_rowWrites 4 .updateRows fun _ _ _ _ => rfl
  · subst delete
    refine takes_table.bind fun name table named => takes_tableId.bind fun id tableId same =>
      takes_commitTs.bind fun stamp commitTs stamped => takes_keys.bind fun code keys items => Reader.takes_pure ?_
    obtain ⟨put, ⟨⟩, valid⟩ := named
    obtain ⟨⟨rfl, _⟩, ⟨⟩, nonzero⟩ := stamped
    obtain ⟨⟨count, body, counted, encoded, rfl⟩, ⟨⟩, ordered⟩ := items
    rw [List.append_nil, encodeBody_deleteRows, same]
    exact encodeWriteSet_ordered valid nonzero put (by rwa [List.map_id]) counted encoded
  · exact Reader.takes_lift nofun

theorem ReplicatedMutation.encode_decode {mutation : ReplicatedMutation} {bytes : Bytes}
    (decoded : ReplicatedMutation.decode bytes = .ok mutation) : mutation.encode = .ok bytes := by
  have whole : readMutation.Takes fun code mutation =>
      ∃ body, mutation.encodeBody = .ok body ∧ code = mutationMagic ++ ([replicatedMutationVersion] ++ body) := by
    refine Reader.takes_take.bind fun magic value taken => Reader.takes_checked fun _ named => ?_
    refine Reader.takes_u8.bind fun code version same => Reader.takes_checked fun _ supported => ?_
    refine Reader.takes_u8.bind fun tag opcode coded => ?_
    obtain ⟨rfl, _⟩ := taken
    subst same coded
    split_ifs at named supported with isMagic isVersion
    subst isMagic isVersion
    intro bytes mutation rest read
    obtain ⟨code, rfl, put⟩ := takes_fields opcode bytes mutation rest read
    exact ⟨code, rfl, [opcode] ++ code, put, rfl⟩
  unfold decode at decoded
  split_ifs at decoded with large
  obtain ⟨⟨found, rest⟩, read, rfl⟩ := map_eq_ok.mp decoded
  obtain ⟨body, put, rfl⟩ := whole.whole read
  exact bind_eq_ok.mpr ⟨body, put, guard_eq_ok.mpr ⟨large, rfl⟩⟩

end Restores

inductive ReplicatedMutation.Reordered : ReplicatedMutation → ReplicatedMutation → Prop
  | same (mutation : ReplicatedMutation) : Reordered mutation mutation
  | insertRows (table : String) (tableId : UInt32) (commitTs : Nat) {rows others : List ReplicatedRowWrite} :
      rows.Perm others → Reordered (.insertRows table tableId commitTs rows) (.insertRows table tableId commitTs others)
  | updateRows (table : String) (tableId : UInt32) (commitTs : Nat) {rows others : List ReplicatedRowWrite} :
      rows.Perm others → Reordered (.updateRows table tableId commitTs rows) (.updateRows table tableId commitTs others)
  | deleteRows (table : String) (tableId : UInt32) (commitTs : Nat) {keys others : List Bytes} :
      keys.Perm others → Reordered (.deleteRows table tableId commitTs keys) (.deleteRows table tableId commitTs others)

theorem ReplicatedMutation.Reordered.encode_eq {mutation other : ReplicatedMutation} (reordered : mutation.Reordered other) :
    mutation.encode = other.encode := by
  have body : mutation.encodeBody = other.encodeBody := by
    cases reordered with
    | same => rfl
    | insertRows table tableId commitTs perm => exact encodeWriteSet_perm perm
    | updateRows table tableId commitTs perm => exact encodeWriteSet_perm perm
    | deleteRows table tableId commitTs perm =>
      rw [encodeBody_deleteRows, encodeBody_deleteRows]
      exact encodeWriteSet_perm perm
  rw [encode, encode, body]

section Limits

open MutationCodecError

namespace ReplicatedMutation

def tableName : ReplicatedMutation → String
  | .createTable schema => schema.name
  | .dropTable table _ | .insertRows table .. | .updateRows table .. | .deleteRows table .. => table

def keys : ReplicatedMutation → List Bytes
  | .createTable _ | .dropTable _ _ => []
  | .insertRows _ _ _ rows | .updateRows _ _ _ rows => rows.map ReplicatedRowWrite.primaryKey
  | .deleteRows _ _ _ primaryKeys => primaryKeys

def itemCount : ReplicatedMutation → Nat
  | .createTable schema => schema.columns.length
  | .dropTable _ _ => 0
  | .insertRows _ _ _ rows | .updateRows _ _ _ rows => rows.length
  | .deleteRows _ _ _ primaryKeys => primaryKeys.length

end ReplicatedMutation

def blobBytes (value : Bytes) : Nat := 4 + value.length

def columnBytes (column : ColumnDef) : Nat := blobBytes (utf8 column.name) + blobBytes (utf8 column.dataType)

def rowBytes (row : ReplicatedRowWrite) : Nat := blobBytes row.primaryKey + blobBytes row.value

namespace ReplicatedMutation

def fieldBytes : ReplicatedMutation → Nat
  | .createTable schema => blobBytes (utf8 schema.name) + 4 + (schema.columns.map columnBytes).sum
  | .dropTable table _ => blobBytes (utf8 table) + 4
  | .insertRows table _ _ rows | .updateRows table _ _ rows =>
    blobBytes (utf8 table) + 4 + 8 + 4 + (rows.map rowBytes).sum
  | .deleteRows table _ _ primaryKeys => blobBytes (utf8 table) + 4 + 8 + 4 + (primaryKeys.map blobBytes).sum

/-- The limits of the format.  Magic, version and operation code take six bytes. -/
structure WithinLimits (mutation : ReplicatedMutation) : Prop where
  named : mutation.tableName ≠ ""
  stamped : ∀ commitTs ∈ mutation.commitTs, commitTs ≠ 0
  distinct : mutation.keys.Nodup
  few : mutation.itemCount ≤ maxItems
  short : 6 + mutation.fieldBytes ≤ maxReplicatedMutationBytes

end ReplicatedMutation

variable {code : Bytes} {table : String}

theorem validateTableName_eq_ok : validateTableName table = .ok () ↔ table ≠ "" := by
  unfold validateTableName
  have empty : utf8 table = [] ↔ table = "" := utf8_injective.eq_iff' (by decide)
  split_ifs with none
  · simp [empty.mp none]
  · simpa using mt empty.mpr none

theorem validateCommitTs_eq_ok {commitTs : Nat} : validateCommitTs commitTs = .ok () ↔ commitTs ≠ 0 := by
  unfold validateCommitTs
  split_ifs with zero
  · simp [zero]
  · simp [zero]

theorem putCount_eq_ok {count : Nat} : putCount count = .ok code ↔ count ≤ maxItems ∧ code = toBeBytes 4 count := by
  unfold putCount
  split_ifs with many
  · simp [not_le.mpr many]
  · simp [not_lt.mp many, eq_comm]

theorem length_putBytes (value code : Bytes) (put : putBytes value = .ok code) : code.length = blobBytes value := by
  obtain ⟨_, rfl⟩ := putBlob_eq_ok put
  rw [List.length_append, length_toBeBytes, blobBytes]

theorem length_putColumn (column : ColumnDef) (code : Bytes) (put : putColumn column = .ok code) :
    code.length = columnBytes column := by
  obtain ⟨name, named, put⟩ := bind_eq_ok.mp put
  obtain ⟨dataType, typed, put⟩ := bind_eq_ok.mp put
  cases pure_eq_ok.mp put
  rw [List.length_append, length_putBytes _ _ named, length_putBytes _ _ typed, columnBytes]

theorem length_putRow (row : ReplicatedRowWrite) (code : Bytes) (put : putRow row = .ok code) : code.length = rowBytes row := by
  obtain ⟨key, keyed, put⟩ := bind_eq_ok.mp put
  obtain ⟨value, valued, put⟩ := bind_eq_ok.mp put
  cases pure_eq_ok.mp put
  rw [List.length_append, length_putBytes _ _ keyed, length_putBytes _ _ valued, rowBytes]

theorem putBytes_exists (value : Bytes) (short : blobBytes value ≤ maxReplicatedMutationBytes) :
    ∃ code, putBytes value = .ok code := by
  unfold blobBytes maxReplicatedMutationBytes at short
  exact ⟨_, if_pos (by omega)⟩

theorem putColumn_exists (column : ColumnDef) (short : columnBytes column ≤ maxReplicatedMutationBytes) :
    ∃ code, putColumn column = .ok code := by
  unfold columnBytes at short
  obtain ⟨name, named⟩ := putBytes_exists _ ((Nat.le_add_right _ _).trans short)
  obtain ⟨dataType, typed⟩ := putBytes_exists _ ((Nat.le_add_left _ _).trans short)
  exact ⟨_, bind_eq_ok.mpr ⟨name, named, bind_eq_ok.mpr ⟨dataType, typed, rfl⟩⟩⟩

theorem putRow_exists (row : ReplicatedRowWrite) (short : rowBytes row ≤ maxReplicatedMutationBytes) :
    ∃ code, putRow row = .ok code := by
  unfold rowBytes at short
  obtain ⟨key, keyed⟩ := putBytes_exists _ ((Nat.le_add_right _ _).trans short)
  obtain ⟨value, valued⟩ := putBytes_exists _ ((Nat.le_add_left _ _).trans short)
  exact ⟨_, bind_eq_ok.mpr ⟨key, keyed, bind_eq_ok.mpr ⟨value, valued, rfl⟩⟩⟩

theorem putItems_exists {α : Type} {put : α → Except MutationCodecError Bytes} {size : α → Nat} {items : List α}
    (each : ∀ item, size item ≤ maxReplicatedMutationBytes → ∃ code, put item = .ok code)
    (short : (items.map size).sum ≤ maxReplicatedMutationBytes) : ∃ code, putMany put items = .ok code :=
  putMany_exists fun item inside =>
    each item ((List.le_sum_of_mem (List.mem_map_of_mem inside)).trans short)

theorem keySort_sum {α : Type} {key : α → Bytes} {size : α → Nat} (items : List α) :
    ((items.insertionSort fun left right => key left ≤ key right).map size).sum = (items.map size).sum :=
  ((List.perm_insertionSort _ items).map size).sum_eq

variable {mutation : ReplicatedMutation} {opcode : UInt8} {tableId : UInt32} {commitTs : Nat}

theorem encodeWriteSet_exists {α : Type} {key : α → Bytes} {put : α → Except MutationCodecError Bytes} {size : α → Nat}
    {items : List α} (each : ∀ item, size item ≤ maxReplicatedMutationBytes → ∃ code, put item = .ok code)
    (length : ∀ item code, put item = .ok code → code.length = size item) :
    (∃ body, encodeWriteSet key put opcode table tableId commitTs items = .ok body ∧
      5 + body.length ≤ maxReplicatedMutationBytes) ↔
    table ≠ "" ∧ commitTs ≠ 0 ∧ (items.map key).Nodup ∧ items.length ≤ maxItems ∧
      6 + (blobBytes (utf8 table) + 4 + 8 + 4 + (items.map size).sum) ≤ maxReplicatedMutationBytes := by
  constructor
  · rintro ⟨body, put, short⟩
    obtain ⟨valid, put⟩ := check_eq_ok.mp put
    obtain ⟨nonzero, put⟩ := check_eq_ok.mp put
    obtain ⟨name, named, put⟩ := bind_eq_ok.mp put
    obtain ⟨ordered, put⟩ := check_eq_ok.mp put
    obtain ⟨count, counted, put⟩ := bind_eq_ok.mp put
    obtain ⟨code, encoded, put⟩ := bind_eq_ok.mp put
    cases pure_eq_ok.mp put
    obtain ⟨few, rfl⟩ := putCount_eq_ok.mp counted
    rw [List.length_insertionSort] at few
    refine ⟨validateTableName_eq_ok.mp valid, validateCommitTs_eq_ok.mp nonzero, ensureStrictKeyOrder_sort.mp ordered, few, ?_⟩
    have total := putMany_length length encoded
    rw [keySort_sum] at total
    simp only [List.length_append, List.length_singleton, length_toBeBytes, length_putBytes _ _ named, total] at short
    omega
  · rintro ⟨valid, nonzero, distinct, few, short⟩
    obtain ⟨name, named⟩ := putBytes_exists (utf8 table) (by omega)
    have sum := @keySort_sum _ key size items
    obtain ⟨code, encoded⟩ := putItems_exists each (sum.trans_le (by omega))
    have total := putMany_length length encoded
    refine ⟨_, check_eq_ok.mpr ⟨validateTableName_eq_ok.mpr valid, check_eq_ok.mpr ⟨validateCommitTs_eq_ok.mpr nonzero,
      bind_eq_ok.mpr ⟨name, named, check_eq_ok.mpr ⟨ensureStrictKeyOrder_sort.mpr distinct, bind_eq_ok.mpr ⟨_,
        putCount_eq_ok.mpr ⟨by rwa [List.length_insertionSort], rfl⟩, bind_eq_ok.mpr ⟨code, encoded, rfl⟩⟩⟩⟩⟩⟩, ?_⟩
    simp only [List.length_append, List.length_singleton, length_toBeBytes, length_putBytes _ _ named, total, sum]
    omega

theorem encodeCreateTable_exists {schema : TableSchema} :
    (∃ body, (ReplicatedMutation.createTable schema).encodeBody = .ok body ∧
      5 + body.length ≤ maxReplicatedMutationBytes) ↔ schema.name ≠ "" ∧ schema.columns.length ≤ maxItems ∧
      6 + (blobBytes (utf8 schema.name) + 4 + (schema.columns.map columnBytes).sum) ≤ maxReplicatedMutationBytes := by
  constructor
  · rintro ⟨body, put, short⟩
    obtain ⟨valid, put⟩ := check_eq_ok.mp put
    obtain ⟨name, named, put⟩ := bind_eq_ok.mp put
    obtain ⟨count, counted, put⟩ := bind_eq_ok.mp put
    obtain ⟨code, encoded, put⟩ := bind_eq_ok.mp put
    cases pure_eq_ok.mp put
    obtain ⟨few, rfl⟩ := putCount_eq_ok.mp counted
    refine ⟨validateTableName_eq_ok.mp valid, few, ?_⟩
    have total := putMany_length length_putColumn encoded
    simp only [List.length_append, List.length_singleton, length_toBeBytes, length_putBytes _ _ named, total] at short
    omega
  · rintro ⟨valid, few, short⟩
    obtain ⟨name, named⟩ := putBytes_exists (utf8 schema.name) (by omega)
    obtain ⟨code, encoded⟩ := @putItems_exists _ putColumn columnBytes schema.columns putColumn_exists (by omega)
    have total := putMany_length length_putColumn encoded
    refine ⟨_, check_eq_ok.mpr ⟨validateTableName_eq_ok.mpr valid, bind_eq_ok.mpr ⟨name, named, bind_eq_ok.mpr ⟨_,
      putCount_eq_ok.mpr ⟨few, rfl⟩, bind_eq_ok.mpr ⟨code, encoded, rfl⟩⟩⟩⟩, ?_⟩
    simp only [List.length_append, List.length_singleton, length_toBeBytes, length_putBytes _ _ named, total]
    omega

theorem encodeDropTable_exists : (∃ body, (ReplicatedMutation.dropTable table tableId).encodeBody = .ok body ∧
      5 + body.length ≤ maxReplicatedMutationBytes) ↔
    table ≠ "" ∧ 6 + (blobBytes (utf8 table) + 4) ≤ maxReplicatedMutationBytes := by
  constructor
  · rintro ⟨body, put, short⟩
    obtain ⟨valid, put⟩ := check_eq_ok.mp put
    obtain ⟨name, named, put⟩ := bind_eq_ok.mp put
    cases pure_eq_ok.mp put
    refine ⟨validateTableName_eq_ok.mp valid, ?_⟩
    simp only [List.length_append, List.length_singleton, length_toBeBytes, length_putBytes _ _ named] at short
    omega
  · rintro ⟨valid, short⟩
    obtain ⟨name, named⟩ := putBytes_exists (utf8 table) (by omega)
    refine ⟨_, check_eq_ok.mpr ⟨validateTableName_eq_ok.mpr valid, bind_eq_ok.mpr ⟨name, named, rfl⟩⟩, ?_⟩
    simp only [List.length_append, List.length_singleton, length_toBeBytes, length_putBytes _ _ named]
    omega

namespace ReplicatedMutation

theorem encode_exists_of_body : (∃ bytes, mutation.encode = .ok bytes) ↔
    ∃ body, mutation.encodeBody = .ok body ∧ 5 + body.length ≤ maxReplicatedMutationBytes := by
  have header (body : Bytes) : (mutationMagic ++ ([replicatedMutationVersion] ++ body)).length = 5 + body.length := by
    have magic : mutationMagic.length = 4 := by decide
    rw [List.length_append, List.length_append, magic, List.length_singleton]
    omega
  constructor
  · rintro ⟨bytes, encoded⟩
    obtain ⟨body, put, encoded⟩ := bind_eq_ok.mp encoded
    obtain ⟨short, _⟩ := guard_eq_ok.mp encoded
    exact ⟨body, put, header body ▸ not_lt.mp short⟩
  · rintro ⟨body, put, short⟩
    exact ⟨_, bind_eq_ok.mpr ⟨body, put, guard_eq_ok.mpr ⟨not_lt.mpr (header body ▸ short), rfl⟩⟩⟩

theorem withinLimits_stamped (mutation : ReplicatedMutation) {commitTs : Nat} (stamped : mutation.commitTs = some commitTs) :
    (mutation.tableName ≠ "" ∧ commitTs ≠ 0 ∧ mutation.keys.Nodup ∧ mutation.itemCount ≤ maxItems ∧
      6 + mutation.fieldBytes ≤ maxReplicatedMutationBytes) ↔ mutation.WithinLimits :=
  ⟨fun ⟨named, nonzero, distinct, few, short⟩ =>
    ⟨named, fun _ same => Option.some.inj (stamped.symm.trans same) ▸ nonzero, distinct, few, short⟩,
    fun limits => ⟨limits.named, limits.stamped commitTs stamped, limits.distinct, limits.few, limits.short⟩⟩

theorem encode_exists : (∃ bytes, mutation.encode = .ok bytes) ↔ mutation.WithinLimits := by
  rw [encode_exists_of_body]
  cases mutation with
  | createTable schema =>
    rw [encodeCreateTable_exists]
    exact ⟨fun ⟨named, few, short⟩ => ⟨named, nofun, List.nodup_nil, few, short⟩,
      fun limits => ⟨limits.named, limits.few, limits.short⟩⟩
  | dropTable table tableId =>
    rw [encodeDropTable_exists]
    exact ⟨fun ⟨named, short⟩ => ⟨named, nofun, List.nodup_nil, Nat.zero_le _, short⟩,
      fun limits => ⟨limits.named, limits.short⟩⟩
  | insertRows table tableId commitTs rows =>
    exact (encodeWriteSet_exists putRow_exists length_putRow).trans
      (withinLimits_stamped (.insertRows table tableId commitTs rows) rfl)
  | updateRows table tableId commitTs rows =>
    exact (encodeWriteSet_exists putRow_exists length_putRow).trans
      (withinLimits_stamped (.updateRows table tableId commitTs rows) rfl)
  | deleteRows table tableId commitTs keys =>
    rw [encodeBody_deleteRows]
    refine (encodeWriteSet_exists putBytes_exists length_putBytes).trans ?_
    rw [List.map_id]
    exact withinLimits_stamped (.deleteRows table tableId commitTs keys) rfl

end ReplicatedMutation

end Limits

/-- The mutation codec is canonical.  A commit timestamp is 64 bits wide. -/
theorem mutation_codec_canonical (mutation : ReplicatedMutation) (fits : mutation.TsFits) :
    ((∃ bytes, mutation.encode = .ok bytes) ↔ mutation.WithinLimits) ∧
    (∀ bytes, mutation.encode = .ok bytes → ReplicatedMutation.decode bytes = .ok mutation.canonical) ∧
    (∀ other, mutation.Reordered other → mutation.encode = other.encode) ∧
    ∀ bytes, ReplicatedMutation.decode bytes = .ok mutation → mutation.encode = .ok bytes :=
  ⟨encode_exists, fun _ encoded => decode_encode fits encoded,
    fun _ reordered => reordered.encode_eq, fun _ decoded => encode_decode decoded⟩

def twoRows : ReplicatedMutation := .insertRows "t" 7 5 [⟨[2], [20]⟩, ⟨[1], [10]⟩]

theorem mutation_codec_canonical_twoRows : ∃ bytes, twoRows.encode = .ok bytes ∧
    ReplicatedMutation.decode bytes = .ok (.insertRows "t" 7 5 [⟨[1], [10]⟩, ⟨[2], [20]⟩]) := by
  have fits : twoRows.TsFits := by
    rintro _ ⟨⟩
    decide
  obtain ⟨limits, decodes, _, _⟩ := mutation_codec_canonical twoRows fits
  obtain ⟨bytes, encoded⟩ := limits.mpr ⟨by decide, by rintro _ ⟨⟩; decide, by decide, by decide, by decide⟩
  exact ⟨bytes, encoded, decodes bytes encoded⟩

end Neuralbase.Replicated
