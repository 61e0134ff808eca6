import Neuralbase.Consensus.Membership

namespace Neuralbase.Consensus

/-! The Raft persistent log and its stable storage (`consensus/log.rs`).

After a snapshot at `lastIncludedIndex = N`, `log[0]` is a sentinel with
`term = snapshotTerm` and `index = N`; real entries start at `log[1]`. -/

/-- The fields Raft requires to be persisted to stable storage before
responding to any RPC.  `membership` is `none` only before a node has
authoritative membership. -/
structure PersistentState where
  currentTerm : Nat
  votedFor : Option NodeId
  log : List LogEntry
  snapshotIndex : Nat
  snapshotTerm : Nat
  membership : Option ClusterMembership
deriving DecidableEq

namespace PersistentState

def new : PersistentState where
  currentTerm := 0
  votedFor := none
  log := [{ term := 0, index := 0, command := [] }]
  snapshotIndex := 0
  snapshotTerm := 0
  membership := none

def lastLogIndex (ps : PersistentState) : Nat := ps.snapshotIndex + ps.log.length - 1

def lastLogTerm (ps : PersistentState) : Nat := (ps.log.getLast?.map LogEntry.term).getD 0

/-- The term of the entry at Raft `index`, or 0 if out of range. -/
def termAt (ps : PersistentState) (index : Nat) : Nat :=
  if index < ps.snapshotIndex then 0
  else ((ps.log[index - ps.snapshotIndex]?).map LogEntry.term).getD 0

def append (ps : PersistentState) (term : Nat) (command : Bytes) : PersistentState × Nat :=
  let index := ps.snapshotIndex + ps.log.length
  ({ ps with log := ps.log ++ [{ term, index, command }] }, index)

/-- Truncate the log to `prevLogIndex` (inclusive) and append `entries`. -/
def truncateAndAppend (ps : PersistentState) (prevLogIndex : Nat) (entries : List LogEntry) : PersistentState :=
  let physicalKeep :=
    if prevLogIndex ≥ ps.snapshotIndex then prevLogIndex - ps.snapshotIndex + 1 else 1
  { ps with log := ps.log.take physicalKeep ++ entries }

/-- The entries from Raft index `start` (inclusive) to the end, never the sentinel. -/
def entriesFrom (ps : PersistentState) (start : Nat) : List LogEntry :=
  let physical := if start > ps.snapshotIndex then start - ps.snapshotIndex else 1
  if physical ≥ ps.log.length then [] else ps.log.drop physical

/-- Discard all log entries at or below `lastIncludedIndex` and replace the
sentinel with the new boundary.  A local suffix is retained only when this log
holds an entry at the boundary with the boundary's term. -/
def installSnapshot (ps : PersistentState) (lastIncludedIndex lastIncludedTerm : Nat) : PersistentState :=
  let newSentinel : LogEntry :=
    { term := lastIncludedTerm, index := lastIncludedIndex, command := [] }
  let boundaryMatchesLocal :=
    lastIncludedIndex ≥ ps.snapshotIndex ∧ lastIncludedIndex ≤ ps.lastLogIndex ∧
      ps.termAt lastIncludedIndex = lastIncludedTerm
  let retained :=
    if boundaryMatchesLocal ∧ lastIncludedIndex < ps.lastLogIndex then
      ps.log.drop (lastIncludedIndex - ps.snapshotIndex + 1)
    else []
  { ps with
    log := newSentinel :: retained
    snapshotIndex := lastIncludedIndex
    snapshotTerm := lastIncludedTerm }

end PersistentState

inductive StagedSnapshotKind where
  | creation
  | installation
deriving DecidableEq

structure StagedSnapshot where
  kind : StagedSnapshotKind
  lastIncludedIndex : Nat
  lastIncludedTerm : Nat
  data : Bytes
deriving DecidableEq

/-- What a `RaftPersistenceStore` holds durably (`MemPersistenceData`). -/
structure Store where
  active : Option (PersistentState × Bytes)
  stagedSnapshot : Option StagedSnapshot
deriving DecidableEq

namespace Store

def empty : Store := { active := none, stagedSnapshot := none }

def save (_ : Store) (state : PersistentState) (snapshotData : Bytes) : Store :=
  { active := some (state, snapshotData), stagedSnapshot := none }

def stageSnapshot (store : Store) (snapshot : StagedSnapshot) : Store :=
  { store with stagedSnapshot := some snapshot }

def clearStagedSnapshot (store : Store) : Store := { store with stagedSnapshot := none }

end Store

end Neuralbase.Consensus
