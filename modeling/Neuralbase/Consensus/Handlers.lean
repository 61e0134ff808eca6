import Neuralbase.Consensus.Node

namespace Neuralbase.Consensus.RaftNode

open Neuralbase.Library

/-! The message and command handlers of a Raft node (`consensus/raft.rs`).  A
handler that can end the node's task returns `Except Halt`; one that reports a
recoverable error returns the node beside the error, since the source may have
changed `self` before it failed. -/

section Membership

variable (codec : Codec)

/-- The first `FinalizeJoint` above `committedIndex`. -/
def findFinalizeJoint (committedIndex : Nat) : List LogEntry → Except String Nat
  | [] => .error "effective membership is stable but FinalizeJoint entry is missing"
  | entry :: rest =>
    if entry.index ≤ committedIndex then findFinalizeJoint committedIndex rest
    else do
      if (← decodeMembershipCommand codec entry.command) = some .finalizeJoint then
        pure entry.index
      else findFinalizeJoint committedIndex rest

def appended (n : RaftNode) (command : Bytes) : RaftNode :=
  { n with ps := (n.ps.append n.ps.currentTerm command).1 }

/-- Append `command` in the current term, refold the membership and persist. -/
def appendCommand (n : RaftNode) (command : Bytes) : RaftNode × Except String Nat :=
  match (n.appended command).recomputeEffectiveMembership codec with
  | .error error => (n.appended command, .error error)
  | .ok next => (next.persist, .ok (n.ps.append n.ps.currentTerm command).2)

def ensureJointFinalizeEntry (n : RaftNode) : RaftNode × Except String Nat :=
  if n.role ≠ .leader then
    (n, .error "cannot finalize joint membership while not leader")
  else if !n.committedMembership.isJoint then
    (n, .error "committed membership is not joint")
  else if !n.effectiveMembership.isJoint then
    (n, findFinalizeJoint codec n.committedMembership.configIndex n.ps.log)
  else
    n.appendCommand codec (encodeMembershipChange codec .finalizeJoint)

/-- Apply a membership log entry to the committed configuration.  The result is
`true` when the entry starts joint consensus. -/
def applyCommittedMembership (n : RaftNode) (entry : LogEntry) : RaftNode × Except String Bool :=
  match decodeMembershipCommand codec entry.command with
  | .error error => (n, .error error)
  | .ok none => (n, .ok false)
  | .ok (some change) =>
    if n.ps.membership.any fun membership => decide (membership.configIndex ≥ entry.index) then
      let startsJoint :=
        match change with
        | .promoteLearner _ | .removeNode _ => true
        | _ => false
      (n, .ok (startsJoint && n.committedMembership.isJoint))
    else
      let base := n.committedMembership
      match transitionMembership base change entry.index with
      | .error error => (n, .error error)
      | .ok next =>
        let jointStarted := !base.isJoint && next.isJoint
        let n := { n with ps := { n.ps with membership := some next } }
        match n.recomputeEffectiveMembership codec with
        | .error error => (n, .error error)
        | .ok n =>
          let n := n.persist
          let n := if n.committedRemoved n.id then { n with servingReady := false } else n
          (n, .ok jointStarted)

def validateMembershipRequest (n : RaftNode) (change : MembershipChange) : Except String Unit :=
  if n.membershipTransitionActive then .error "membership change already in progress"
  else
    let nextIndex := n.ps.lastLogIndex + 1
    match change with
    | .addNode id | .addLearner id =>
      (n.effectiveMembership.addLearner id nextIndex).map fun _ => ()
    | .promoteLearner id =>
      let matched := (n.leader.bind fun leader => leader.matchIndex id).getD 0
      if !n.effectiveMembership.isLearner id then .error s!"node id {id} is not a learner"
      else if matched < n.commitIndex then
        .error s!"learner {id} is not caught up: match_index={matched}, required_commit_index={n.commitIndex}"
      else (n.effectiveMembership.beginPromotion id nextIndex).map fun _ => ()
    | .removeNode id =>
      if id = n.id ∧ n.effectiveMembership.isVoter id then
        .error "cannot remove current leader; transfer leadership and prove the new leader first"
      else (n.effectiveMembership.beginRemoval id nextIndex).map fun _ => ()
    | .finalizeJoint =>
      .error "FinalizeJoint is an internal Raft transition and cannot be submitted directly"

def validateOperatorGuard (n : RaftNode) (guard : MembershipGuard) : Except String Unit :=
  if n.role ≠ .leader ∨ guard.leader ≠ n.id ∨ guard.term ≠ n.ps.currentTerm ∨
      guard.generation ≠ n.committedMembership.generation ∨ n.membershipTransitionActive ∨
      !n.servingReady then
    .error "stale operator leadership/membership guard or node not ready"
  else .ok ()

end Membership

section Election

variable (codec : Codec)

def leading (n : RaftNode) : RaftNode :=
  let next := n.ps.lastLogIndex + 1
  let targets := n.effectiveMembership.replicationTargets.erase n.id
  { n with
    role := .leader
    leaderId := some n.id
    servingReady := n.servingReady || !n.recoveryReadinessPending
    leader := some {
      nextIndex := fun id => if id ∈ targets then some next else none
      matchIndex := fun id => if id ∈ targets then some 0 else none } }

def becomeLeader (n : RaftNode) : Except Halt RaftNode :=
  if !n.effectiveMembership.isVoter n.id then .ok { n with role := .follower }
  else
    let recoveryBarrierNeeded :=
      n.recoveryReadinessPending || decide (n.commitIndex < n.ps.lastLogIndex)
    let n := if recoveryBarrierNeeded then (n.leading.appended []).persist else n.leading
    if n.committedMembership.isJoint && n.effectiveMembership.isJoint then
      match n.ensureJointFinalizeEntry codec with
      | (n, .error error) =>
        .error { reason := s!"fatal joint-membership recovery on leader election: {error}", node := n }
      | (n, .ok _) => .ok n.tryAdvanceCommit.sendHeartbeats
    else .ok n.tryAdvanceCommit.sendHeartbeats

def campaigning (n : RaftNode) : RaftNode :=
  { n with
    role := .candidate
    ps := { n.ps with currentTerm := n.ps.currentTerm + 1, votedFor := some n.id }
    votesReceived := {n.id}
    leaderId := none }

def voteRequest (n : RaftNode) : RequestVoteArgs where
  term := n.ps.currentTerm
  candidateId := n.id
  lastLogIndex := n.ps.lastLogIndex
  lastLogTerm := n.ps.lastLogTerm

def startElection (n : RaftNode) : Except Halt RaftNode :=
  if !n.effectiveMembership.isVoter n.id then
    .ok { n with role := .follower, votesReceived := ∅ }
  else
    let n := n.campaigning.persist
    let n := n.sendEach (n.effectiveMembership.electionTargets.erase n.id) fun _ =>
      .requestVote n.voteRequest
    if n.effectiveMembership.hasVoteQuorum n.votesReceived then n.becomeLeader codec else .ok n

/-- `voted_for` names another candidate. -/
def alreadyVoted (n : RaftNode) (args : RequestVoteArgs) : Bool :=
  n.ps.votedFor.any fun voted => decide (voted ≠ args.candidateId)

def logUpToDate (n : RaftNode) (args : RequestVoteArgs) : Bool :=
  decide (args.lastLogTerm > n.ps.lastLogTerm) ||
    (decide (args.lastLogTerm = n.ps.lastLogTerm) && decide (args.lastLogIndex ≥ n.ps.lastLogIndex))

def voted (n : RaftNode) (candidate : NodeId) : RaftNode :=
  { n with ps := { n.ps with votedFor := some candidate } }

def onRequestVote (n : RaftNode) (args : RequestVoteArgs) : RaftNode × RequestVoteReply :=
  -- Membership rejection happens before term adoption.
  if !n.effectiveMembership.isVoter n.id || !n.effectiveMembership.isVoter args.candidateId ||
      n.committedRemoved args.candidateId then
    (n, { term := n.ps.currentTerm, voteGranted := false })
  else if args.term < n.ps.currentTerm then
    (n, { term := n.ps.currentTerm, voteGranted := false })
  else
    let n := if args.term > n.ps.currentTerm then n.becomeFollower args.term else n
    let voteGranted := !n.alreadyVoted args && n.logUpToDate args
    let n := if voteGranted then (n.voted args.candidateId).persist else n
    (n, { term := n.ps.currentTerm, voteGranted })

def onRequestVoteReply (n : RaftNode) (sender : NodeId) (reply : RequestVoteReply) : Except Halt RaftNode :=
  if reply.term > n.ps.currentTerm then .ok (n.becomeFollower reply.term)
  else if reply.term ≠ n.ps.currentTerm then .ok n
  else if n.role ≠ .candidate ∨ !n.effectiveMembership.isVoter sender then .ok n
  else if reply.voteGranted then
    let n := { n with votesReceived := insert sender n.votesReceived }
    if n.effectiveMembership.hasVoteQuorum n.votesReceived then n.becomeLeader codec else .ok n
  else .ok n

def onTimeoutNow (n : RaftNode) (sender : NodeId) (term : Nat) : Except Halt RaftNode :=
  if n.role = .leader ∨ term < n.ps.currentTerm ∨ !n.effectiveMembership.isVoter n.id ∨
      !n.effectiveMembership.isVoter sender ∨ n.leaderId ≠ some sender then
    .ok n
  else
    let n := if term > n.ps.currentTerm then n.becomeFollower term else n
    n.startElection codec

end Election

section Replication

variable (codec : Codec)

/-- A message of the node's term or a later one, from another node, ends any
candidacy or leadership. -/
def stepDownFor (n : RaftNode) (term : Nat) (leaderId : NodeId) : RaftNode :=
  if term > n.ps.currentTerm ∨
      (term = n.ps.currentTerm ∧ n.role ≠ .follower ∧ leaderId ≠ n.id) then
    n.becomeFollower term
  else n

def prevLogMismatch (n : RaftNode) (args : AppendEntriesArgs) : Bool :=
  decide (args.prevLogIndex > 0) && decide (n.ps.termAt args.prevLogIndex ≠ args.prevLogTerm)

def accepted (n : RaftNode) (args : AppendEntriesArgs) : RaftNode :=
  { n with ps := n.ps.truncateAndAppend args.prevLogIndex args.entries }

def followCommit (n : RaftNode) (leaderCommit : Nat) : RaftNode :=
  if leaderCommit > n.commitIndex then
    { n with commitIndex := min leaderCommit n.ps.lastLogIndex }
  else n

def appendReply (n : RaftNode) (success : Bool) : AppendEntriesReply where
  term := n.ps.currentTerm
  success
  matchIndex := n.ps.lastLogIndex

def onAppendEntries (n : RaftNode) (args : AppendEntriesArgs) : Except Halt (RaftNode × AppendEntriesReply) :=
  if !n.acceptsReplicationFrom args.leaderId || n.committedRemoved args.leaderId then
    .ok (n, n.appendReply false)
  else if args.term < n.ps.currentTerm then .ok (n, n.appendReply false)
  else
    let n := { n.stepDownFor args.term args.leaderId with leaderId := some args.leaderId }
    if n.prevLogMismatch args then .ok (n, n.appendReply false)
    else
      let n := { n with successfulAppendSeen := true }
      if args.entries = [] then
        let n := n.followCommit args.leaderCommit
        .ok (n, n.appendReply true)
      else
        match (n.accepted args).recomputeEffectiveMembership codec with
        | .error error =>
          .error { reason := s!"fatal replicated membership log validation failure: {error}"
                   node := n.accepted args }
        | .ok n =>
          let n := n.persist.followCommit args.leaderCommit
          .ok (n, n.appendReply true)

def onAppendEntriesReply (n : RaftNode) (sender : NodeId) (reply : AppendEntriesReply) : RaftNode :=
  if reply.term > n.ps.currentTerm then n.becomeFollower reply.term
  else if reply.term ≠ n.ps.currentTerm then n
  else if n.role ≠ .leader ∨ sender ∉ n.effectiveMembership.replicationTargets then n
  else
    match n.leader with
    | none => n
    | some leader =>
      if reply.success then
        ({ n with leader := some (leader.record sender reply.matchIndex (reply.matchIndex + 1)) })
          |>.tryAdvanceCommit
      else
        let current := (leader.nextIndex sender).getD 1
        let retry := max (min (current - 1) (reply.matchIndex + 1)) 1
        { n with leader := some { leader with
            nextIndex := Function.update leader.nextIndex sender (some retry) } }

end Replication

section Snapshots

variable (codec : Codec) (env : Environment)

def validateSnapshotMembershipBoundary (membership : ClusterMembership) (boundary : Nat) :
    Except String Unit := do
  membership.validate
  if membership.isJoint then
    throw "snapshot may not encode a joint membership transition"
  if membership.configIndex > boundary then
    throw s!"snapshot membership config index {membership.configIndex} exceeds snapshot boundary {boundary}"
  pure ()

def validateIncomingSnapshotMembership (n : RaftNode) (incoming : ClusterMembership)
    (boundary : Nat) : Except String Unit := do
  validateSnapshotMembershipBoundary incoming boundary
  match n.ps.membership with
  | none => pure ()
  | some current => do
      if current.configIndex > boundary then
        throw s!"snapshot boundary {boundary} would regress committed membership at {current.configIndex}"
      if current.generation > incoming.generation then
        throw s!"snapshot membership generation {incoming.generation} regresses local generation {current.generation}"
      if current.generation = incoming.generation ∧ current ≠ incoming then
        throw "conflicting membership metadata at the same generation"
      pure ()

/-- The membership (if any) and the state-machine bytes of an incoming snapshot,
checked against the local membership. -/
def incomingSnapshot (n : RaftNode) (boundary : Nat) (data : Bytes) :
    Except String (Option ClusterMembership × Bytes) :=
  match decodeSnapshotPayload codec data with
  | .error error => .error s!"envelope validation failure: {error}"
  | .ok (some (membership, sqlBytes)) =>
    match n.validateIncomingSnapshotMembership membership boundary with
    | .error error => .error s!"membership validation failure: {error}"
    | .ok () => .ok (some membership, sqlBytes)
  | .ok none =>
    if n.ps.membership.any fun membership => decide (membership.configIndex > 0) then
      .error "recovery: legacy snapshot cannot replace dynamic membership"
    else .ok (none, data)

/-- The boundary, the snapshot bytes and the membership of an accepted snapshot
replace the local ones. -/
def installed (n : RaftNode) (index term : Nat) (data : Bytes) (incoming : Option ClusterMembership) : RaftNode :=
  { n with
    ps := { n.ps with membership := incoming.orElse fun _ => n.ps.membership }.installSnapshot
      index term
    snapshotData := data
    commitIndex := max n.commitIndex index
    lastApplied := max n.lastApplied index }

def publishSnapshot (n : RaftNode) (index term : Nat) (data : Bytes)
    (incoming : Option ClusterMembership) : Except (String × RaftNode) RaftNode :=
  match (n.installed index term data incoming).recomputeEffectiveMembership codec with
  | .error error => .error (error, n.installed index term data incoming)
  | .ok n => .ok n.persist

def snapshotReply (n : RaftNode) (success : Bool) (index : Nat) : InstallSnapshotReply where
  term := n.ps.currentTerm
  success
  lastIncludedIndex := index

def publishIncoming (n : RaftNode) (args : InstallSnapshotArgs)
    (incoming : Option ClusterMembership) : Except Halt (RaftNode × InstallSnapshotReply) :=
  match n.publishSnapshot codec args.lastIncludedIndex args.lastIncludedTerm args.data incoming with
  | .error (error, n) =>
    .error { reason := s!"fatal effective membership after InstallSnapshot: {error}", node := n }
  | .ok n => .ok (n, n.snapshotReply true n.ps.snapshotIndex)

def stageAndPublish (n : RaftNode) (args : InstallSnapshotArgs)
    (incoming : Option ClusterMembership) (sqlBytes : Bytes) : Except Halt (RaftNode × InstallSnapshotReply) :=
  match env.stageSnapshot with
  | .error error =>
    .error { reason := s!"fatal Raft snapshot staging failure: {error}", node := n }
  | .ok () =>
    let n := n.emit (.stageSnapshot {
      kind := .installation
      lastIncludedIndex := args.lastIncludedIndex
      lastIncludedTerm := args.lastIncludedTerm
      data := args.data })
    match env.restoreSnapshot args.lastIncludedIndex args.lastIncludedTerm sqlBytes with
    | .ok () =>
      (n.emit (.restoreSnapshot args.lastIncludedIndex args.lastIncludedTerm
        sqlBytes)).publishIncoming codec args incoming
    | .error _ =>
      match env.clearStagedSnapshot with
      | .error error =>
        .error { reason := s!"fatal staged Raft snapshot clear failure: {error}", node := n }
      | .ok () =>
        .ok (n.emit .clearStagedSnapshot, n.snapshotReply false args.lastIncludedIndex)

def installIncoming (n : RaftNode) (args : InstallSnapshotArgs)
    (incoming : Option ClusterMembership) (sqlBytes : Bytes) : Except Halt (RaftNode × InstallSnapshotReply) :=
  if n.snapshotStore then
    match env.validateSnapshot args.lastIncludedIndex args.lastIncludedTerm sqlBytes with
    | .error _ => .ok (n, n.snapshotReply false args.lastIncludedIndex)
    | .ok () =>
      if !n.persistence then .ok (n, n.snapshotReply false args.lastIncludedIndex)
      else n.stageAndPublish codec env args incoming sqlBytes
  else if n.confirmedApplyTx then
    .error { reason := "fatal replicated SQL snapshot install: SQL state snapshot restore is not implemented"
             node := n }
  else n.publishIncoming codec args incoming

def onInstallSnapshot (n : RaftNode) (args : InstallSnapshotArgs) : Except Halt (RaftNode × InstallSnapshotReply) :=
  if !n.acceptsReplicationFrom args.leaderId || n.committedRemoved args.leaderId then
    .ok (n, n.snapshotReply false args.lastIncludedIndex)
  else if args.term < n.ps.currentTerm then .ok (n, n.snapshotReply false args.lastIncludedIndex)
  else
    let n := { n.stepDownFor args.term args.leaderId with leaderId := some args.leaderId }
    if !args.done then .ok (n, n.snapshotReply false args.lastIncludedIndex)
    else if args.lastIncludedIndex ≤ n.ps.snapshotIndex then
      .ok (n, n.snapshotReply true args.lastIncludedIndex)
    else
      match n.incomingSnapshot codec args.lastIncludedIndex args.data with
      | .error _ => .ok (n, n.snapshotReply false args.lastIncludedIndex)
      | .ok (incoming, sqlBytes) => n.installIncoming codec env args incoming sqlBytes

def onInstallSnapshotReply (n : RaftNode) (sender : NodeId) (reply : InstallSnapshotReply) : RaftNode :=
  if reply.term > n.ps.currentTerm then n.becomeFollower reply.term
  else if reply.term ≠ n.ps.currentTerm then n
  else if n.role ≠ .leader ∨ !reply.success then n
  else if reply.lastIncludedIndex > n.ps.snapshotIndex then n
  else if sender ∉ n.effectiveMembership.replicationTargets then n
  else
    let n :=
      match n.leader with
      | none => n
      | some leader =>
        let matched := max ((leader.matchIndex sender).getD 0) reply.lastIncludedIndex
        let next := max ((leader.nextIndex sender).getD 1) (reply.lastIncludedIndex + 1)
        { n with leader := some (leader.record sender matched next) }
    n.tryAdvanceCommit

def compacted (n : RaftNode) (safeLast lastTerm : Nat) (data : Bytes) : RaftNode :=
  { n with ps := n.ps.installSnapshot safeLast lastTerm, snapshotData := data }

/-- Move the snapshot boundary up to `safeLast`, whose term is `lastTerm`. -/
def compactTo (n : RaftNode) (safeLast lastTerm : Nat) (data : Bytes) : RaftNode × Except String Nat :=
  match (n.compacted safeLast lastTerm data).recomputeEffectiveMembership codec with
  | .error error => (n.compacted safeLast lastTerm data, .error error)
  | .ok n => (n.persist, .ok safeLast)

def createSnapshotData (n : RaftNode) (membership : ClusterMembership) (safeLast lastTerm : Nat) :
    Except String Bytes := do
  let sqlData ← (env.createSnapshot safeLast lastTerm).mapError fun error =>
    s!"state-machine snapshot creation failed: {error}"
  (env.validateSnapshot safeLast lastTerm sqlData).mapError fun error =>
    s!"created state-machine snapshot failed validation: {error}"
  let data ← encodeSnapshotPayload codec membership sqlData
  if !n.persistence then
    throw "SQL-aware Raft compaction requires durable persistence"
  env.stageSnapshot.mapError fun error => s!"stage state-machine snapshot: {error}"
  pure data

def compactStateMachine (n : RaftNode) (membership : ClusterMembership) (lastIndex : Nat) :
    RaftNode × Except String Nat :=
  let safeLast := min (min lastIndex n.commitIndex) n.lastApplied
  let lastTerm := n.ps.termAt safeLast
  if safeLast ≤ n.ps.snapshotIndex then (n, .ok n.ps.snapshotIndex)
  else if membership.configIndex > safeLast then
    (n, .error s!"snapshot boundary {safeLast} precedes committed membership index {membership.configIndex}")
  else if lastTerm = 0 then
    (n, .error s!"cannot create snapshot at Raft index {safeLast}: boundary term is unavailable")
  else
    match n.createSnapshotData codec env membership safeLast lastTerm with
    | .error error => (n, .error error)
    | .ok data =>
      (n.emit (.stageSnapshot {
        kind := .creation
        lastIncludedIndex := safeLast
        lastIncludedTerm := lastTerm
        data })).compactTo codec safeLast lastTerm data

def compactLegacy (n : RaftNode) (membership : ClusterMembership) (lastIndex : Nat)
    (rawData : Bytes) : RaftNode × Except String Nat :=
  let safeLast := min lastIndex n.commitIndex
  if safeLast = 0 then (n, .ok 0)
  else if safeLast ≤ n.ps.snapshotIndex then (n, .ok n.ps.snapshotIndex)
  else if membership.configIndex > safeLast then
    (n, .error s!"snapshot boundary {safeLast} precedes committed membership index {membership.configIndex}")
  else
    match encodeSnapshotPayload codec membership rawData with
    | .error error => (n, .error error)
    | .ok data => n.compactTo codec safeLast (n.ps.termAt safeLast) data

def requestedBoundary (payload : Bytes) : Nat := fromBeBytes ((payload.drop 2).take 8)

def handleCompactLogCmd (n : RaftNode) (payload : Bytes) : RaftNode × Except String Nat :=
  if payload.length < 2 + 8 then
    (n, .error "compact-log payload too short (need at least 10 bytes)")
  else if n.membershipTransitionActive then
    (n, .error "cannot compact Raft log during membership transition")
  else
    match n.ps.membership with
    | none => (n, .error "cannot compact before authoritative membership is known")
    | some membership =>
      if membership.isJoint then (n, .error "cannot compact a joint membership configuration")
      else if n.snapshotStore then
        n.compactStateMachine codec env membership (requestedBoundary payload)
      else if n.confirmedApplyTx then
        (n, .error "Raft log compaction is disabled in replicated SQL mode until SQL state snapshots are implemented")
      else n.compactLegacy codec membership (requestedBoundary payload) (payload.drop 10)

end Snapshots

section Commands

variable (codec : Codec) (env : Environment)

/-- The payload a guarded membership request stands for, once its guard holds. -/
def unwrapGuarded (n : RaftNode) (payload : Bytes) : Except String Bytes :=
  if startsWith payload guardedMembershipTag then
    if payload.length > 4096 then .error "guarded membership request too large"
    else
      match codec.guardedFromSlice (payload.drop guardedMembershipTag.length) with
      | .error error => .error s!"invalid guarded membership request: {error}"
      | .ok request => do
          n.validateOperatorGuard request.guard
          pure (encodeMembershipChange codec request.change)
  else .ok payload

def checkMembershipRequest (n : RaftNode) (payload : Bytes) : Except String Unit :=
  match decodeMembershipCommand codec payload with
  | .error error => .error error
  | .ok none => .ok ()
  | .ok (some change) => n.validateMembershipRequest change

def proposeCommand (n : RaftNode) (payload : Bytes) : RaftNode × Except String Nat :=
  if startsWith payload leaderTransferTag then
    (n, .error "use LeaderTransfer RPC, not client command")
  else
    match n.checkMembershipRequest codec payload with
    | .error error => (n, .error error)
    | .ok () => n.appendCommand codec payload

/-- `{:?}` on an optional id. -/
def debugId : Option NodeId → String
  | none => "None"
  | some id => s!"Some(\"{id}\")"

def handleClientCommand (n : RaftNode) (payload : Bytes) : RaftNode × Except String Nat :=
  if n.role ≠ .leader then
    (n, .error s!"not leader; redirect to {debugId n.leaderId}")
  else if n.transferInProgress.isSome then
    (n, .error "leadership transfer in progress; retry later")
  else
    match n.unwrapGuarded codec payload with
    | .error error => (n, .error error)
    | .ok payload =>
      if startsWith payload compactLogTag then n.handleCompactLogCmd codec env payload
      else n.proposeCommand codec payload

def chooseTransferTarget (n : RaftNode) : Except String NodeId :=
  if n.role ≠ .leader then .error "not leader"
  else if n.membershipTransitionActive then
    .error "membership transition in progress; cannot transfer leadership"
  else
    match n.leader with
    | none => .error "leader replication state unavailable"
    | some leader =>
      match (ascending (n.effectiveMembership.electionTargets.erase n.id)).find? fun id =>
          decide ((leader.matchIndex id).getD 0 ≥ n.ps.lastLogIndex) with
      | some target => .ok target
      | none => .error "no eligible up-to-date voter available for leadership transfer"

def initiateLeaderTransfer (n : RaftNode) (target : NodeId) : Except String RaftNode :=
  let matched := (n.leader.bind fun leader => leader.matchIndex target).getD 0
  if n.role ≠ .leader then .error "not leader"
  else if n.membershipTransitionActive then
    .error "membership transition in progress; cannot transfer leadership"
  else if !n.effectiveMembership.isStableVoter target ∨ target = n.id then
    .error s!"target {target} is not an eligible stable voter"
  else if matched < n.ps.lastLogIndex then
    .error s!"target {target} is not caught up: match_index={matched}, last_log_index={n.ps.lastLogIndex}"
  else if n.transferInProgress.isSome then .error "transfer already in progress"
  else .ok { n with transferInProgress := some target }

def transferTo (n : RaftNode) (target : NodeId) : RaftNode × Except String Unit :=
  match n.initiateLeaderTransfer target with
  | .error error => (n, .error error)
  | .ok n => (n.send target (.timeoutNow n.ps.currentTerm), .ok ())

def onLeaderTransfer (n : RaftNode) (sender target : NodeId) : RaftNode :=
  match n.transferTo target with
  | (n, .ok ()) => n.send sender (.leaderTransferReply true none)
  | (n, .error error) => n.send sender (.leaderTransferReply false (some error))

/-- A membership request from an administrator waits in `pendingMembershipRpcs`
until its transition is applied. -/
def onMembershipChangeCmd (n : RaftNode) (sender : NodeId) (change : MembershipChange) : RaftNode :=
  if n.role ≠ .leader then
    n.send sender (.membershipChangeCmdReply false (some "not leader"))
  else
    match n.handleClientCommand codec env (encodeMembershipChange codec change) with
    | (n, .ok index) =>
      ({ n with pendingMembershipRpcs := n.pendingMembershipRpcs.insert index sender })
        |>.tryAdvanceCommit.sendHeartbeats
    | (n, .error error) => n.send sender (.membershipChangeCmdReply false (some error))

def handleMessage (n : RaftNode) (sender : NodeId) (message : RaftMessage) : Except Halt RaftNode :=
  match message with
  | .requestVote args =>
    let (n, reply) := n.onRequestVote args
    .ok (n.send sender (.requestVoteReply reply))
  | .requestVoteReply reply => n.onRequestVoteReply codec sender reply
  | .appendEntries args =>
    (n.onAppendEntries codec args).map fun (n, reply) => n.send sender (.appendEntriesReply reply)
  | .appendEntriesReply reply => .ok (n.onAppendEntriesReply sender reply)
  | .installSnapshot args =>
    (n.onInstallSnapshot codec env args).map fun (n, reply) =>
      n.send sender (.installSnapshotReply reply)
  | .installSnapshotReply reply => .ok (n.onInstallSnapshotReply sender reply)
  | .membershipChangeCmd change => .ok (n.onMembershipChangeCmd codec env sender change)
  | .membershipChangeCmdReply _ _ => .ok n
  | .leaderTransfer target => .ok (n.onLeaderTransfer sender target)
  | .leaderTransferReply _ _ => .ok n
  | .timeoutNow term => n.onTimeoutNow codec sender term

end Commands

end Neuralbase.Consensus.RaftNode
