import Neuralbase.Consensus.Log.Shape
import Neuralbase.Library.Utf8
import Neuralbase.Storage.Database

namespace Neuralbase.Persistence

open Neuralbase.Library Neuralbase.Consensus Neuralbase.Storage

/-! Durable Raft stable storage in the meta column family (`raft_persistence.rs`): a
compact hard-state record plus one key per log entry.  A save writes only what the
last durable hard state does not already cover. -/

def raftStateKeyV1 : Bytes := utf8 "raft/core/persistent-state-v1"
def raftHardStateKeyV2 : Bytes := utf8 "raft/core/hard-state-v2"
def raftLogPrefixV2 : Bytes := utf8 "raft/core/log-v2/"
def raftSnapshotKey : Bytes := utf8 "raft/core/snapshot-v1"
def raftStagedSnapshotKey : Bytes := utf8 "raft/core/snapshot-staged-v1"

structure PersistedHardStateV2 where
  currentTerm : Nat
  votedFor : Option NodeId
  snapshotIndex : Nat
  snapshotTerm : Nat
  membership : Option ClusterMembership
  lastLogIndex : Nat
  lastLogTerm : Nat
  snapshotBytesLen : Nat
deriving DecidableEq

def PersistedHardStateV2.fromState (state : PersistentState) (snapshotData : Bytes) : PersistedHardStateV2 where
  currentTerm := state.currentTerm
  votedFor := state.votedFor
  snapshotIndex := state.snapshotIndex
  snapshotTerm := state.snapshotTerm
  membership := state.membership
  lastLogIndex := state.lastLogIndex
  lastLogTerm := state.lastLogTerm
  snapshotBytesLen := snapshotData.length

/-- `serde_json` on the records that are stored as JSON. -/
structure HardStateCodec where
  hardToVec : PersistedHardStateV2 → Bytes
  hardFromSlice : Bytes → Except String PersistedHardStateV2
  hardFromSlice_toVec : ∀ hard, hardFromSlice (hardToVec hard) = .ok hard
  stateFromSlice : Bytes → Except String PersistentState

section Entries

def raftLogKey (index : Nat) : Bytes := raftLogPrefixV2 ++ toBeBytes 8 index

def logEntryMagic : Bytes := utf8 "NBL2"
def logEntryVersion : UInt8 := 1
def logEntryHeaderBytes : Nat := 4 + 1 + 8 + 8 + 4

def encodeLogEntry (entry : LogEntry) : Except String Bytes :=
  if entry.command.length < 2 ^ 32 then
    .ok (logEntryMagic ++ ([logEntryVersion] ++ (toBeBytes 8 entry.term ++ (toBeBytes 8 entry.index ++
      (toBeBytes 4 entry.command.length ++ entry.command)))))
  else .error s!"Raft log entry {entry.index} command exceeds u32"

def decodeLogEntry (expectedIndex : Nat) (bytes : Bytes) : Except String LogEntry :=
  if bytes.length < logEntryHeaderBytes then
    .error s!"truncated Raft v2 log entry {expectedIndex}: {bytes.length} bytes"
  else if bytes.take 4 ≠ logEntryMagic then
    .error s!"invalid Raft v2 log magic at index {expectedIndex}"
  else if (bytes.drop 4).headD 0 ≠ logEntryVersion then
    .error s!"unsupported Raft v2 log version {(bytes.drop 4).headD 0} at index {expectedIndex}"
  else
    let term := fromBeBytes ((bytes.drop 5).take 8)
    let index := fromBeBytes ((bytes.drop 13).take 8)
    if index ≠ expectedIndex then
      .error s!"Raft v2 log key/index mismatch: key={expectedIndex}, entry={index}"
    else
      let commandLen := fromBeBytes ((bytes.drop 21).take 4)
      if bytes.length ≠ logEntryHeaderBytes + commandLen then
        .error s!"Raft v2 log entry {expectedIndex} length mismatch: header says {commandLen}, total={bytes.length} bytes"
      else .ok { term, index, command := bytes.drop logEntryHeaderBytes }

/-- `first..=last`. -/
def inclusiveRange (first last : Nat) : List Nat := List.range' first (last + 1 - first)

/-- `index.saturating_add(1)` on 64 bits. -/
def saturatingSucc (index : Nat) : Nat := min (index + 1) (2 ^ 64 - 1)

def putLogEntry (state : PersistentState) (index : Nat) : Except String WriteBatch :=
  match state.entryAt index with
  | none => .error s!"Raft state missing log entry {index} while persisting v2"
  | some entry =>
    if index = state.snapshotIndex then .ok []
    else (encodeLogEntry entry).map fun encoded => [putCf .metadata (raftLogKey index) encoded]

def putLogEntries (state : PersistentState) : List Nat → Except String WriteBatch
  | [] => .ok []
  | index :: rest => do
      let first ← putLogEntry state index
      let others ← putLogEntries state rest
      pure (first ++ others)

def putLogRange (state : PersistentState) (first last : Nat) : Except String WriteBatch :=
  putLogEntries state (inclusiveRange first last)

def deleteLogRange (first last : Nat) : WriteBatch :=
  (inclusiveRange first last).map fun index => deleteCf .metadata (raftLogKey index)

end Entries

section Staged

def stagedMagic : Bytes := utf8 "NBST"
def stagedVersion : UInt8 := 1
def stagedHeaderBytes : Nat := 4 + 1 + 1 + 8 + 8

def stagedKindByte : StagedSnapshotKind → UInt8
  | .creation => 1
  | .installation => 2

def stagedKind (byte : UInt8) : Option StagedSnapshotKind :=
  if byte = 1 then some .creation else if byte = 2 then some .installation else none

def encodeStagedSnapshot (snapshot : StagedSnapshot) : Bytes :=
  stagedMagic ++ ([stagedVersion] ++ ([stagedKindByte snapshot.kind] ++
    (toBeBytes 8 snapshot.lastIncludedIndex ++ (toBeBytes 8 snapshot.lastIncludedTerm ++
      snapshot.data))))

def decodeStagedSnapshot (bytes : Bytes) : Except String StagedSnapshot :=
  if bytes.length < stagedHeaderBytes then
    .error s!"truncated staged Raft snapshot metadata: {bytes.length} bytes"
  else if bytes.take 4 ≠ stagedMagic then .error "invalid staged Raft snapshot magic"
  else if (bytes.drop 4).headD 0 ≠ stagedVersion then
    .error s!"unsupported staged Raft snapshot version {(bytes.drop 4).headD 0}"
  else
    match stagedKind ((bytes.drop 5).headD 0) with
    | none => .error s!"invalid staged Raft snapshot kind {(bytes.drop 5).headD 0}"
    | some kind => .ok {
        kind
        lastIncludedIndex := fromBeBytes ((bytes.drop 6).take 8)
        lastIncludedTerm := fromBeBytes ((bytes.drop 14).take 8)
        data := bytes.drop stagedHeaderBytes }

end Staged

structure RocksDbRaftPersistenceStore where
  db : Database
  cachedHard : Option PersistedHardStateV2

namespace RocksDbRaftPersistenceStore

def new (db : Database) : RocksDbRaftPersistenceStore := { db, cachedHard := none }

variable (codec : HardStateCodec)

def loadHardV2 (store : RocksDbRaftPersistenceStore) : Except String (Option PersistedHardStateV2) :=
  match (store.db .metadata).get raftHardStateKeyV2 with
  | none => .ok none
  | some bytes =>
    match codec.hardFromSlice bytes with
    | .ok hard => .ok (some hard)
    | .error error => .error s!"decode Raft v2 hard state: {error}"

def currentHardV2 (store : RocksDbRaftPersistenceStore) :
    Except String (Option PersistedHardStateV2 × RocksDbRaftPersistenceStore) :=
  match store.cachedHard with
  | some cached => .ok (some cached, store)
  | none => (store.loadHardV2 codec).map fun loaded => (loaded, { store with cachedHard := loaded })

/-- The log keys to change when the snapshot boundary stays: the new entries if what is
stored is still the start of the log, and all of them otherwise. -/
def logChanges (old : PersistedHardStateV2) (state : PersistentState) : Except String WriteBatch :=
  let prefixStillMatches := old.lastLogIndex ≤ state.lastLogIndex ∧
    state.termAt old.lastLogIndex = old.lastLogTerm
  if prefixStillMatches then
    putLogRange state (saturatingSucc old.lastLogIndex) state.lastLogIndex
  else
    (putLogRange state (saturatingSucc state.snapshotIndex) state.lastLogIndex).map fun puts =>
      deleteLogRange (saturatingSucc state.snapshotIndex) old.lastLogIndex ++ puts

def saveBatch (previous : Option PersistedHardStateV2) (state : PersistentState)
    (snapshotData : Bytes) : Except String WriteBatch := do
  let next := PersistedHardStateV2.fromState state snapshotData
  let header : WriteBatch :=
    [putCf .metadata raftHardStateKeyV2 (codec.hardToVec next),
      deleteCf .metadata raftStateKeyV1, deleteCf .metadata raftStagedSnapshotKey]
  let snapshot : WriteBatch := [putCf .metadata raftSnapshotKey snapshotData]
  match previous with
  | none =>
    let puts ← putLogRange state (saturatingSucc state.snapshotIndex) state.lastLogIndex
    pure (header ++ (puts ++ snapshot))
  | some old =>
    if old.snapshotIndex ≠ next.snapshotIndex then
      let puts ← putLogRange state (saturatingSucc state.snapshotIndex) state.lastLogIndex
      pure (header ++ (deleteLogRange (saturatingSucc old.snapshotIndex) old.lastLogIndex ++
        (puts ++ snapshot)))
    else
      let changes ← logChanges old state
      pure (header ++ (changes ++
        if old.snapshotBytesLen ≠ next.snapshotBytesLen then snapshot else []))

/-- `written` says whether the engine takes the batch. -/
def save (store : RocksDbRaftPersistenceStore) (state : PersistentState) (snapshotData : Bytes)
    (written : Bool) : RocksDbRaftPersistenceStore × Except String Unit :=
  match store.currentHardV2 codec with
  | .error error => (store, .error error)
  | .ok (previous, store) =>
    match saveBatch codec previous state snapshotData with
    | .error error => (store, .error error)
    | .ok batch =>
      if written then
        ({ db := store.db.writeBatch batch
           cachedHard := some (.fromState state snapshotData) }, .ok ())
      else (store, .error "persist Raft v2 state to RocksDB")

def stageSnapshot (store : RocksDbRaftPersistenceStore) (snapshot : StagedSnapshot) (written : Bool) :
    RocksDbRaftPersistenceStore × Except String Unit :=
  if written then
    let batch := [putCf .metadata raftStagedSnapshotKey (encodeStagedSnapshot snapshot)]
    ({ store with db := store.db.writeBatch batch }, .ok ())
  else (store, .error "stage Raft snapshot in RocksDB")

def loadStagedSnapshot (store : RocksDbRaftPersistenceStore) : Except String (Option StagedSnapshot) :=
  match (store.db .metadata).get raftStagedSnapshotKey with
  | none => .ok none
  | some bytes => (decodeStagedSnapshot bytes).map some

def clearStagedSnapshot (store : RocksDbRaftPersistenceStore) (written : Bool) :
    RocksDbRaftPersistenceStore × Except String Unit :=
  if written then
    let batch := [deleteCf .metadata raftStagedSnapshotKey]
    ({ store with db := store.db.writeBatch batch }, .ok ())
  else (store, .error "clear staged Raft snapshot")

def loadEntry (store : RocksDbRaftPersistenceStore) (index : Nat) : Except String LogEntry :=
  match (store.db .metadata).get (raftLogKey index) with
  | none => .error s!"missing Raft v2 log entry {index}"
  | some bytes => decodeLogEntry index bytes

def loadEntries (store : RocksDbRaftPersistenceStore) : List Nat → Except String (List LogEntry)
  | [] => .ok []
  | index :: rest => do
      let entry ← store.loadEntry index
      let entries ← store.loadEntries rest
      pure (entry :: entries)

def loadV2 (store : RocksDbRaftPersistenceStore) (hard : PersistedHardStateV2) :
    Except String (PersistentState × Bytes) := do
  if hard.lastLogIndex < hard.snapshotIndex then
    throw s!"Raft v2 hard state end {hard.lastLogIndex} precedes snapshot boundary {hard.snapshotIndex}"
  let entries ← store.loadEntries
    (inclusiveRange (saturatingSucc hard.snapshotIndex) hard.lastLogIndex)
  let state : PersistentState := {
    currentTerm := hard.currentTerm
    votedFor := hard.votedFor
    log := { term := hard.snapshotTerm, index := hard.snapshotIndex, command := [] } :: entries
    snapshotIndex := hard.snapshotIndex
    snapshotTerm := hard.snapshotTerm
    membership := hard.membership }
  if state.lastLogTerm ≠ hard.lastLogTerm then
    throw s!"Raft v2 hard/log term mismatch at {hard.lastLogIndex}: hard={hard.lastLogTerm}, log={state.lastLogTerm}"
  let snapshot := ((store.db .metadata).get raftSnapshotKey).getD []
  if snapshot.length ≠ hard.snapshotBytesLen then
    throw s!"Raft v2 snapshot length mismatch: hard={hard.snapshotBytesLen}, stored={snapshot.length}"
  pure (state, snapshot)

def loadV1 (store : RocksDbRaftPersistenceStore) : Except String (Option (PersistentState × Bytes)) :=
  match (store.db .metadata).get raftStateKeyV1, (store.db .metadata).get raftSnapshotKey with
  | none, some _ => .error "Raft snapshot exists without persistent state"
  | none, none => .ok none
  | some stateBytes, snapshotBytes =>
    match codec.stateFromSlice stateBytes with
    | .ok state => .ok (some (state, snapshotBytes.getD []))
    | .error error => .error s!"decode legacy Raft persistent state: {error}"

def load (store : RocksDbRaftPersistenceStore) :
    RocksDbRaftPersistenceStore × Except String (Option (PersistentState × Bytes)) :=
  match store.loadHardV2 codec with
  | .error error => (store, .error error)
  | .ok none => (store, store.loadV1 codec)
  | .ok (some hard) =>
    match store.loadV2 hard with
    | .error error => (store, .error error)
    | .ok loaded => ({ store with cachedHard := some hard }, .ok (some loaded))

def reopen (store : RocksDbRaftPersistenceStore) : RocksDbRaftPersistenceStore := .new store.db

end RocksDbRaftPersistenceStore

inductive PersistenceOp where
  | save (state : PersistentState) (snapshotData : Bytes) (written : Bool)
  | stageSnapshot (snapshot : StagedSnapshot) (written : Bool)
  | clearStagedSnapshot (written : Bool)
  | load
  | reopen

def RocksDbRaftPersistenceStore.exec (codec : HardStateCodec) (store : RocksDbRaftPersistenceStore) :
    PersistenceOp → RocksDbRaftPersistenceStore × Except String Unit
  | .save state snapshotData written => store.save codec state snapshotData written
  | .stageSnapshot snapshot written => store.stageSnapshot snapshot written
  | .clearStagedSnapshot written => store.clearStagedSnapshot written
  | .load => ((store.load codec).1, (store.load codec).2.map fun _ => ())
  | .reopen => (store.reopen, .ok ())

def memExec (store : Store) : PersistenceOp → Store
  | .save state snapshotData _ => store.save state snapshotData
  | .stageSnapshot snapshot _ => store.stageSnapshot snapshot
  | .clearStagedSnapshot _ => store.clearStagedSnapshot
  | .load | .reopen => store

end Neuralbase.Persistence
