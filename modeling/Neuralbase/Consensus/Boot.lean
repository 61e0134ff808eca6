import Neuralbase.Consensus.EventLoop

namespace Neuralbase.Consensus

/-! Starting a node from its stable storage: the `with_*` constructors of
`consensus/raft.rs` in the order `main.rs` calls them.  A panic of the source is
a `Halt`. -/

namespace RaftNode

section Recovery

variable (codec : Codec) (env : Environment)

def panic (n : RaftNode) (reason : String) : Halt := { reason, node := n }

def validatePersistedMembership (membership : ClusterMembership) (ps : PersistentState) :
    Except String Unit := do
  membership.validate
  if membership.configIndex > ps.lastLogIndex then
    throw s!"membership config index {membership.configIndex} is beyond local Raft end {ps.lastLogIndex}"
  pure ()

def validateLoaded (ps : PersistentState) : Except String Unit :=
  match ps.membership with
  | none => .ok ()
  | some membership => validatePersistedMembership membership ps

/-- The state-machine bytes of the active snapshot, checked against the
persisted membership. -/
def activeSnapshotBytes (n : RaftNode) : Except String Bytes :=
  match decodeSnapshotPayload codec n.snapshotData with
  | .error error => .error s!"fatal Raft snapshot envelope recovery failure: {error}"
  | .ok none => .ok n.snapshotData
  | .ok (some (membership, sqlBytes)) =>
    match validateSnapshotMembershipBoundary membership n.ps.snapshotIndex with
    | .error error => .error s!"fatal active snapshot membership validation failure: {error}"
    | .ok () =>
      if n.ps.membership.any fun current =>
          decide (current.configIndex ≤ n.ps.snapshotIndex) && decide (current ≠ membership) then
        .error "fatal active snapshot recovery: persisted membership conflicts with snapshot membership"
      else .ok sqlBytes

def restoreActiveSnapshotIfPossible (n : RaftNode) : Except Halt RaftNode :=
  if (n.ps.snapshotIndex ≠ 0) ≠ (n.snapshotData ≠ []) then
    .error (n.panic "fatal Raft snapshot recovery: snapshot boundary metadata and active snapshot bytes are inconsistent")
  else if n.ps.snapshotIndex = 0 then .ok n
  else if !n.snapshotStore then .ok n
  else
    match n.activeSnapshotBytes codec with
    | .error reason => .error (n.panic reason)
    | .ok sqlBytes =>
      match env.restoreSnapshot n.ps.snapshotIndex n.ps.snapshotTerm sqlBytes with
      | .error error =>
        .error (n.panic s!"fatal state-machine snapshot recovery failure: {error}")
      | .ok () =>
        .ok (n.emit (.restoreSnapshot n.ps.snapshotIndex n.ps.snapshotTerm sqlBytes))

def clearStaged (n : RaftNode) : Except Halt RaftNode :=
  match env.clearStagedSnapshot with
  | .error error => .error (n.panic s!"fatal staged Raft snapshot clear failure: {error}")
  | .ok () => .ok ({ n with pendingStagedSnapshot := none }.emit .clearStagedSnapshot)

def recoverInstallation (n : RaftNode) (staged : StagedSnapshot) : Except Halt RaftNode :=
  match n.incomingSnapshot codec staged.lastIncludedIndex staged.data with
  | .error error =>
    .error (n.panic s!"fatal staged snapshot {error}")
  | .ok (incoming, sqlBytes) =>
    match env.validateSnapshot staged.lastIncludedIndex staged.lastIncludedTerm sqlBytes with
    | .error error =>
      .error (n.panic s!"fatal staged state-machine snapshot validation failure: {error}")
    | .ok () =>
      match env.restoreSnapshot staged.lastIncludedIndex staged.lastIncludedTerm sqlBytes with
      | .error error =>
        .error (n.panic s!"fatal staged state-machine snapshot recovery failure: {error}")
      | .ok () =>
        let n := n.emit (.restoreSnapshot staged.lastIncludedIndex staged.lastIncludedTerm
          sqlBytes)
        match n.publishSnapshot codec staged.lastIncludedIndex staged.lastIncludedTerm
            staged.data incoming with
        | .error (error, n) =>
          .error (n.panic s!"fatal effective membership after snapshot recovery: {error}")
        | .ok n => .ok { n with pendingStagedSnapshot := none }

def recoverStagedSnapshotIfPossible (n : RaftNode) : Except Halt (RaftNode × Bool) :=
  match n.pendingStagedSnapshot with
  | none => .ok (n, false)
  | some staged =>
    if !n.persistence then .ok (n, false)
    else
      match staged.kind with
      | .creation => do pure (← n.clearStaged env, false)
      | .installation =>
        if !n.snapshotStore then .ok (n, false)
        else if staged.lastIncludedIndex ≤ n.ps.snapshotIndex then do
          pure (← n.clearStaged env, false)
        else do pure (← n.recoverInstallation codec env staged, true)

def recoverSnapshots (n : RaftNode) : Except Halt RaftNode := do
  let (n, recoveredInstall) ← n.recoverStagedSnapshotIfPossible codec env
  if recoveredInstall then pure n else n.restoreActiveSnapshotIfPossible codec env

def withSnapshotStore (n : RaftNode) : Except Halt RaftNode :=
  ({ n with snapshotStore := true }).recoverSnapshots codec env

/-- Take over the persisted state.  The flag tells whether a state without
membership was migrated to the bootstrap membership. -/
def adoptPersisted (n : RaftNode) (ps : PersistentState) (snapshotData : Bytes) : Except Halt (RaftNode × Bool) :=
  if (ps.snapshotIndex ≠ 0) ≠ (snapshotData ≠ []) then
    .error (n.panic "fatal Raft snapshot recovery: snapshot boundary metadata and active snapshot bytes are inconsistent")
  else
    let migrated := ps.membership.isNone && !n.joiningLearner
    let ps := if migrated then { ps with membership := some n.bootstrapMembership } else ps
    match validateLoaded ps with
    | .error error => .error (n.panic s!"fatal persisted membership state: {error}")
    | .ok () =>
      .ok ({ n with
        ps
        snapshotData
        commitIndex := ps.snapshotIndex
        lastApplied := ps.snapshotIndex }, migrated)

/-- Readiness after loading: durable state must first re-prove a safe frontier, a
fresh node with peers must first hear from a leader, and a removed node is never
ready. -/
def withholdReadiness (n : RaftNode) (fresh : Bool) : RaftNode :=
  let hasPeers := decide (n.effectiveMembership.replicationTargets.erase n.id ≠ ∅)
  { n with
    recoveryReadinessPending := n.recoveryReadinessPending || !fresh
    servingReady := n.servingReady && fresh && !(n.joiningLearner || hasPeers) &&
      !n.committedRemoved n.id }

def loadActive (n : RaftNode) (store : Store) : Except Halt (RaftNode × Bool) :=
  match store.active with
  | none => .ok (n, false)
  | some (ps, snapshotData) => n.adoptPersisted ps snapshotData

def attachStore (n : RaftNode) (store : Store) : Except Halt (RaftNode × Bool) :=
  match n.loadActive store with
  | .error halt => .error halt
  | .ok (n, migrated) =>
    let n := { n with persistence := true, pendingStagedSnapshot := store.stagedSnapshot }
    match n.recomputeEffectiveMembership codec with
    | .error error => .error (n.panic s!"fatal effective membership recovery: {error}")
    | .ok n => .ok (n, migrated)

def withPersistence (n : RaftNode) (store : Store) : Except Halt RaftNode := do
  let (n, migrated) ← n.attachStore codec store
  let n ← n.recoverSnapshots codec env
  let n := if migrated && n.pendingStagedSnapshot.isNone then n.persist else n
  pure (n.withholdReadiness store.active.isNone)

def withDurableApplyFrontier (n : RaftNode) (appliedIndex : Nat) : Except Halt RaftNode :=
  if appliedIndex < n.ps.snapshotIndex then
    .error (n.panic s!"fatal durable state-machine apply frontier {appliedIndex} is behind Raft snapshot boundary {n.ps.snapshotIndex}")
  else if appliedIndex > n.ps.lastLogIndex then
    .error (n.panic s!"fatal durable state-machine apply frontier {appliedIndex} is beyond persisted Raft log end {n.ps.lastLogIndex}")
  else
    .ok ({ n with
      commitIndex := max n.commitIndex appliedIndex
      lastApplied := max n.lastApplied appliedIndex }.emit (.readCursor appliedIndex))

def withApplyTx (n : RaftNode) : RaftNode := { n with applyTx := true, confirmedApplyTx := false }

def stagedInstallation (n : RaftNode) : Bool :=
  n.pendingStagedSnapshot.any fun staged => decide (staged.kind = .installation)

def withConfirmedApplyTx (n : RaftNode) : Except Halt RaftNode :=
  let hasUnrecoverableSnapshot :=
    (decide (n.ps.snapshotIndex ≠ 0) || decide (n.snapshotData ≠ [])) && !n.snapshotStore
  let hasUnrecoverableInstall := n.stagedInstallation && !n.snapshotStore
  if hasUnrecoverableSnapshot || hasUnrecoverableInstall then
    .error (n.panic "replicated SQL confirmed apply cannot start from a legacy Raft snapshot; SQL state snapshot restore is not implemented")
  else .ok { n with confirmedApplyTx := true, applyTx := false }

/-- The check `spawn` makes before the loop starts. -/
def spawn (n : RaftNode) : Except Halt RaftNode :=
  if n.stagedInstallation then
    .error (n.panic "fatal Raft snapshot recovery: staged installation requires a state-machine snapshot store")
  else .ok n

end Recovery

end RaftNode

/-- How a process joins: as a founding voter, or as a learner that replays the
log from its genesis configuration. -/
inductive Joining where
  | voter (peers : List NodeId)
  | learner (genesisVoters seedVoters : List NodeId)
deriving DecidableEq

inductive ApplyChannel where
  | none
  | legacy
  | confirmed
deriving DecidableEq

structure BootConfig where
  joining : Joining
  snapshotStore : Bool
  /-- Whether the state machine reports its durable apply cursor. -/
  durableFrontier : Bool
  channel : ApplyChannel
deriving DecidableEq

/-- The state machine's durable apply cursor after an effect.  An entry or a
snapshot at or below the cursor is not applied again. -/
def advanceCursor (cursor : Nat) : Effect → Nat
  | .applyEntry entry => max cursor entry.index
  | .restoreSnapshot index _ _ => max cursor index
  | _ => cursor

namespace RaftNode

def create (id : NodeId) : Joining → Except String RaftNode
  | .voter peers => .ok (new id peers)
  | .learner genesisVoters seedVoters => newLearnerFromGenesis id genesisVoters seedVoters

def withApplyChannel (n : RaftNode) : ApplyChannel → Except Halt RaftNode
  | .none => .ok n
  | .legacy => .ok n.withApplyTx
  | .confirmed => n.withConfirmedApplyTx

def withStateMachine (codec : Codec) (env : Environment) (config : BootConfig) (n : RaftNode) : Except Halt RaftNode :=
  if config.snapshotStore then n.withSnapshotStore codec env else .ok n

def withFrontier (config : BootConfig) (cursor : Nat) (n : RaftNode) : Except Halt RaftNode :=
  if config.durableFrontier then n.withDurableApplyFrontier (n.io.foldl advanceCursor cursor)
  else .ok n

def load (codec : Codec) (env : Environment) (config : BootConfig) (store : Store) (cursor : Nat)
    (n : RaftNode) : Except Halt RaftNode := do
  let n ← n.withStateMachine codec env config
  let n ← n.withPersistence codec env store
  let n ← n.withFrontier config cursor
  let n ← n.withApplyChannel config.channel
  n.spawn

end RaftNode

end Neuralbase.Consensus
