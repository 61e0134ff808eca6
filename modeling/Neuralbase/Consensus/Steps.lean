import Neuralbase.Consensus.Cluster

namespace Neuralbase.Consensus

/-! What a node can do in one step.

An action of a node (an event, one apply, a restart) is a sequence of steps, each
with at most one effect, so that a crash during the action leaves the outside in
the state after some of its steps.  `NodeStep` lists the steps with the guards
the handlers have established when they take them; invariants are proved once
per step. -/

namespace RaftNode

/-- The save a `persist` makes. -/
def saved (n : RaftNode) : Option Effect :=
  if n.persistence then some (.save n.ps n.snapshotData) else none

/-- AppendEntries from `args.leaderId` passes the checks that precede any change
to the log. -/
def AcceptsAppend (n : RaftNode) (args : AppendEntriesArgs) : Prop :=
  n.acceptsReplicationFrom args.leaderId = true ∧ n.committedRemoved args.leaderId = false ∧
    n.ps.currentTerm ≤ args.term ∧ n.prevLogMismatch args = false

def AcceptsSnapshot (codec : Codec) (n : RaftNode) (args : InstallSnapshotArgs)
    (incoming : Option ClusterMembership) (sqlBytes : Bytes) : Prop :=
  n.acceptsReplicationFrom args.leaderId = true ∧ n.committedRemoved args.leaderId = false ∧
    n.ps.currentTerm ≤ args.term ∧ n.ps.snapshotIndex < args.lastIncludedIndex ∧
    n.incomingSnapshot codec args.lastIncludedIndex args.data = .ok (incoming, sqlBytes)

instance (n : RaftNode) (args : AppendEntriesArgs) : Decidable (n.AcceptsAppend args) :=
  inferInstanceAs (Decidable (_ ∧ _))

/-- What stepping down leaves alone: everything but the term, the vote, the role
and the waiters. -/
structure Core where
  id : NodeId
  log : List LogEntry
  snapshotIndex : Nat
  snapshotTerm : Nat
  membership : Option ClusterMembership
  bootstrap : ClusterMembership
  effective : ClusterMembership
  snapshotData : Bytes
  commitIndex : Nat
  lastApplied : Nat
  snapshotStore : Bool

def core (n : RaftNode) : Core where
  id := n.id
  log := n.ps.log
  snapshotIndex := n.ps.snapshotIndex
  snapshotTerm := n.ps.snapshotTerm
  membership := n.ps.membership
  bootstrap := n.bootstrapMembership
  effective := n.effectiveMembership
  snapshotData := n.snapshotData
  commitIndex := n.commitIndex
  lastApplied := n.lastApplied
  snapshotStore := n.snapshotStore

def Since (n origin : RaftNode) : Prop := n.core = origin.core

namespace Since

variable {n origin : RaftNode}

theorem refl : n.Since n := rfl

theorem id (since : n.Since origin) : n.id = origin.id :=
  congrArg Core.id since

theorem log (since : n.Since origin) : n.ps.log = origin.ps.log :=
  congrArg Core.log since

theorem snapshotIndex (since : n.Since origin) : n.ps.snapshotIndex = origin.ps.snapshotIndex :=
  congrArg Core.snapshotIndex since

theorem membership (since : n.Since origin) : n.ps.membership = origin.ps.membership :=
  congrArg Core.membership since

theorem effective (since : n.Since origin) : n.effectiveMembership = origin.effectiveMembership :=
  congrArg Core.effective since

theorem commitIndex (since : n.Since origin) : n.commitIndex = origin.commitIndex :=
  congrArg Core.commitIndex since

theorem snapshotStore (since : n.Since origin) : n.snapshotStore = origin.snapshotStore :=
  congrArg Core.snapshotStore since

theorem lastLogIndex (since : n.Since origin) : n.ps.lastLogIndex = origin.ps.lastLogIndex := by
  rw [PersistentState.lastLogIndex, since.log, since.snapshotIndex, PersistentState.lastLogIndex]

end Since

end RaftNode

def PersistentState.Stored (ps : PersistentState) (args : AppendEntriesArgs) : Prop :=
  ∃ before : PersistentState, (args.prevLogIndex > 0 →
      before.termAt args.prevLogIndex = args.prevLogTerm) ∧
    ps = if args.entries = [] then before
      else before.truncateAndAppend args.prevLogIndex args.entries

def Effect.Harmless : Effect → Prop
  | .send _ (.requestVoteReply vote) => vote.voteGranted = false
  | .send _ (.appendEntriesReply answer) => answer.success = false
  | .send _ (.installSnapshotReply answer) => answer.success = false
  | .send _ (.membershipChangeCmdReply _ _) => True
  | .send _ (.leaderTransferReply _ _) => True
  | .send _ (.timeoutNow _) => True
  | .transferReply _ => True
  | .controlReply _ => True
  | _ => False

structure Context where
  codec : Codec
  work : Work
  origin : RaftNode

namespace Context

variable (ctx : Context)

def Receives (sender : NodeId) (message : RaftMessage) : Prop :=
  ctx.work = .event (.message sender message)

def Submits (client : ClientId) (payload : Bytes) : Prop :=
  ctx.work = .event (.clientCommand client payload)

def Boots : Prop := ∃ config, ctx.work = .boot config

def Applies (entry : LogEntry) (jointStarted : Bool) : Prop :=
  (∃ outcome, ctx.work = .apply outcome) ∧ ctx.origin.lastApplied < ctx.origin.commitIndex ∧
    ctx.origin.nextCommitted = some entry ∧
    (ctx.origin.applyMembershipEntry ctx.codec entry).2 = .ok jointStarted

end Context

/-- The command the event asks for: what a client's payload stands for, or an
administrator's change. -/
inductive Requests (ctx : Context) (n : RaftNode) (command : Bytes) : Prop
  | client {client : ClientId} {payload : Bytes} : ctx.Submits client payload →
      n.unwrapGuarded ctx.codec payload = .ok command → Requests ctx n command
  | administrator {sender : NodeId} {change : MembershipChange} :
      ctx.Receives sender (.membershipChangeCmd change) →
      command = encodeMembershipChange ctx.codec change → Requests ctx n command

/-- What a leader may append besides the empty barrier: a plain command, a
checked membership change, or the end of a joint configuration. -/
inductive Proposal (ctx : Context) (n : RaftNode) : Bytes → Prop
  | plain {command : Bytes} :
      startsWith command membershipChangeTag = false → Proposal ctx n command
  | change {command : Bytes} {change : MembershipChange} : Requests ctx n command →
      decodeMembershipCommand ctx.codec command = .ok (some change) →
      n.validateMembershipRequest change = .ok () → Proposal ctx n command
  | finalize :
      n.committedMembership.isJoint = true → n.effectiveMembership.isJoint = true →
      Proposal ctx n (encodeMembershipChange ctx.codec .finalizeJoint)

/-- A positive answer to a waiter: compaction answers at once, and an applied
entry answers its waiter unless it started a joint configuration. -/
inductive Acknowledges (ctx : Context) (n : RaftNode) (client : ClientId) (index : Nat) : Prop
  | compaction {payload : Bytes} :
      ctx.Submits client payload → startsWith payload compactLogTag = true →
      Acknowledges ctx n client index
  | applied {entry : LogEntry} :
      ctx.Applies entry false → index = ctx.origin.lastApplied + 1 → n.lastApplied = index →
      ctx.origin.pendingClients.lookup index = some client → Acknowledges ctx n client index

/-- A waiter is left for `index`: that of the command just appended, or that of
the entry that ends the joint configuration just applied. -/
inductive Enqueues (ctx : Context) (n : RaftNode) (client : ClientId) (index : Nat) : Prop
  | command {payload command : Bytes} :
      ctx.Submits client payload → startsWith payload compactLogTag = false →
      ctx.origin.role = .leader → ctx.origin.unwrapGuarded ctx.codec payload = .ok command →
      ctx.origin.checkMembershipRequest ctx.codec command = .ok () →
      n.ps = (ctx.origin.ps.append ctx.origin.ps.currentTerm command).1 →
      n.committedMembership = ctx.origin.committedMembership →
      index = ctx.origin.ps.snapshotIndex + ctx.origin.ps.log.length →
      Enqueues ctx n client index
  | finalize {entry final : LogEntry} :
      ctx.Applies entry true → n.lastApplied = ctx.origin.lastApplied + 1 →
      ctx.origin.pendingClients.lookup (ctx.origin.lastApplied + 1) = some client →
      entry.index ≤ n.committedMembership.configIndex →
      n.ps.snapshotIndex = ctx.origin.ps.snapshotIndex →
      (n.ps.log = ctx.origin.ps.log ∧ final ∈ ctx.origin.ps.log ∧
          n.committedMembership.configIndex < index ∨
        n.ps.log = ctx.origin.ps.log ++ [final] ∧
          index = ctx.origin.ps.snapshotIndex + ctx.origin.ps.log.length) →
      final.index = index →
      decodeMembershipCommand ctx.codec final.command = .ok (some .finalizeJoint) →
      Enqueues ctx n client index

/-- One compaction: the boundary moves to `safeLast`, at most what is committed. -/
structure Compacts (ctx : Context) (n : RaftNode) (safeLast : Nat) (data : Bytes) : Prop where
  since : n.Since ctx.origin
  leads : n.role = .leader
  above : n.ps.snapshotIndex < safeLast
  committed : safeLast ≤ n.commitIndex
  drained : n.commitIndex ≤ n.lastApplied
  stable : n.membershipTransitionActive = false
  membership : ∃ membership sqlBytes, n.ps.membership = some membership ∧
    membership.isJoint = false ∧ membership.configIndex ≤ safeLast ∧
    encodeSnapshotPayload ctx.codec membership sqlBytes = .ok data
  /-- The state-machine path checks that the boundary has a term; the legacy path
  takes the requested index as far as it is committed. -/
  source : n.ps.termAt safeLast ≠ 0 ∨
    ∃ client payload, ctx.Submits client payload ∧ startsWith payload compactLogTag = true ∧
      n.snapshotStore = false ∧ safeLast = min (RaftNode.requestedBoundary payload) n.commitIndex

inductive NodeStep (ctx : Context) (n : RaftNode) : Option Effect → RaftNode → Prop
  -- bookkeeping that no guard of another node rests on
  | soft (leaderId : Option NodeId) (servingReady successfulAppendSeen recoveryReadinessPending
      applyTx confirmedApplyTx : Bool) (transferInProgress : Option NodeId)
      (pendingMembershipRpcs : AList fun _ : Nat => NodeId) :
      NodeStep ctx n none { n with
        leaderId, servingReady, successfulAppendSeen, recoveryReadinessPending, applyTx,
        confirmedApplyTx, transferInProgress, pendingMembershipRpcs }
  | retarget (leader : LeaderState) (nextIndex : NodeId → Option Nat) :
      n.leader = some leader →
      NodeStep ctx n none { n with leader := some { leader with nextIndex } }
  | notify (effect : Effect) : effect.Harmless → NodeStep ctx n (some effect) n
  -- waiters
  | takeCall (client : ClientId) (payload : Bytes) : ctx.Submits client payload →
      n = ctx.origin → NodeStep ctx n none { n with caller := some client }
  | takeWaiter (entry : LogEntry) (jointStarted : Bool) : ctx.Applies entry jointStarted →
      n.lastApplied = ctx.origin.lastApplied + 1 →
      n.pendingClients = ctx.origin.pendingClients →
      NodeStep ctx n none { n with
        caller := n.pendingClients.lookup n.lastApplied
        pendingClients := n.pendingClients.erase n.lastApplied }
  | answerCaller (client : ClientId) (result : Except String Nat) : n.caller = some client →
      (∀ index, result = .ok index → Acknowledges ctx n client index) →
      NodeStep ctx n (some (.reply client result)) { n with caller := none }
  | enqueueCaller (client : ClientId) (index : Nat) : n.caller = some client → n.role = .leader →
      Enqueues ctx n client index →
      NodeStep ctx n none { n with
        caller := none, pendingClients := n.pendingClients.insert index client }
  | failWaiter (reason : String) (index : Nat) (client : ClientId) :
      n.pendingClients.lookup index = some client →
      NodeStep ctx n (some (.reply client (.error reason)))
        { n with pendingClients := n.pendingClients.erase index }
  -- elections
  | stepDown (term : Nat) (sender : NodeId) (message : RaftMessage) :
      ctx.Receives sender message → n.ps.currentTerm ≤ term →
      (∀ index ∈ n.pendingClients, index ≤ n.commitIndex) → n.commitIndex ≤ n.lastApplied →
      n.commitIndex = ctx.origin.commitIndex →
      NodeStep ctx n (n.demoted term).saved (n.demoted term)
  | retire (votes : Finset NodeId) : n.role ≠ .leader → votes ⊆ n.votesReceived →
      NodeStep ctx n none { n with role := .follower, votesReceived := votes }
  | campaign : n.role ≠ .leader → n.effectiveMembership.isVoter n.id = true →
      NodeStep ctx n n.campaigning.saved n.campaigning
  | callVote (peer : NodeId) : n.role = .candidate → peer ≠ n.id →
      NodeStep ctx n (some (.send peer (.requestVote n.voteRequest))) n
  | grantVote (sender : NodeId) (args : RequestVoteArgs) : ctx.Receives sender (.requestVote args) →
      args.term = n.ps.currentTerm → n.alreadyVoted args = false → n.logUpToDate args = true →
      n.effectiveMembership.isVoter n.id = true →
      n.effectiveMembership.isVoter args.candidateId = true →
      NodeStep ctx n (n.voted args.candidateId).saved (n.voted args.candidateId)
  | sendVote (sender : NodeId) (args : RequestVoteArgs) : ctx.Receives sender (.requestVote args) →
      args.term = n.ps.currentTerm → n.ps.votedFor = some args.candidateId →
      NodeStep ctx n (some (.send sender (.requestVoteReply
        { term := n.ps.currentTerm, voteGranted := true }))) n
  | countVote (sender : NodeId) :
      ctx.Receives sender (.requestVoteReply { term := n.ps.currentTerm, voteGranted := true }) →
      n.role = .candidate → n.effectiveMembership.isVoter sender = true →
      NodeStep ctx n none { n with votesReceived := insert sender n.votesReceived }
  | takeLead : n.role = .candidate → n.effectiveMembership.isVoter n.id = true →
      n.effectiveMembership.hasVoteQuorum n.votesReceived = true →
      NodeStep ctx n none n.leading
  -- the leader's log
  | appendBarrier : n.role = .leader → NodeStep ctx n (n.appended []).saved (n.appended [])
  | propose (command : Bytes) (next : RaftNode) : n.role = .leader →
      Proposal ctx n command →
      (n.appended command).recomputeEffectiveMembership ctx.codec = .ok next →
      NodeStep ctx n next.saved next
  | proposeFailed (command : Bytes) (error : String) : n.role = .leader →
      Proposal ctx n command →
      (n.appended command).recomputeEffectiveMembership ctx.codec = .error error →
      NodeStep ctx n none (n.appended command)
  | advanceCommit (index : Nat) : n.role = .leader → n.commitIndex < index →
      index ≤ n.ps.lastLogIndex → n.commits index = true →
      NodeStep ctx n none { n with commitIndex := index }
  | heartbeat (peer : NodeId) : n.role = .leader → peer ≠ n.id →
      NodeStep ctx n (some (.send peer (n.heartbeatFor peer))) n
  -- replication
  | accept (sender : NodeId) (args : AppendEntriesArgs) (next : RaftNode) :
      ctx.Receives sender (.appendEntries args) → ctx.origin.AcceptsAppend args →
      n.Since ctx.origin → args.term = n.ps.currentTerm →
      (n.role = .follower ∨ args.leaderId = n.id) → args.entries ≠ [] →
      (n.accepted args).recomputeEffectiveMembership ctx.codec = .ok next →
      NodeStep ctx n next.saved next
  | followCommit (sender : NodeId) (args : AppendEntriesArgs) :
      ctx.Receives sender (.appendEntries args) → ctx.origin.AcceptsAppend args →
      args.term = n.ps.currentTerm →
      (n.role = .follower ∨ args.leaderId = n.id) →
      n.ps.Stored args → n.commitIndex < args.leaderCommit →
      NodeStep ctx n none { n with commitIndex := min args.leaderCommit n.ps.lastLogIndex }
  | ackAppend (sender : NodeId) (args : AppendEntriesArgs) :
      ctx.Receives sender (.appendEntries args) → ctx.origin.AcceptsAppend args →
      args.term = n.ps.currentTerm → n.ps.Stored args →
      (args.entries = [] → n.ps.log = ctx.origin.ps.log ∧
        n.ps.snapshotIndex = ctx.origin.ps.snapshotIndex) →
      NodeStep ctx n (some (.send sender (.appendEntriesReply (n.appendReply true)))) n
  | recordMatch (sender : NodeId) (leader : LeaderState) (matched : Nat) :
      ctx.Receives sender (.appendEntriesReply
        { term := n.ps.currentTerm, success := true, matchIndex := matched }) →
      n.role = .leader → n.leader = some leader →
      sender ∈ n.effectiveMembership.replicationTargets →
      NodeStep ctx n none { n with leader := some (leader.record sender matched (matched + 1)) }
  -- snapshots
  | stageInstall (sender : NodeId) (args : InstallSnapshotArgs)
      (incoming : Option ClusterMembership) (sqlBytes : Bytes) :
      ctx.Receives sender (.installSnapshot args) →
      ctx.origin.AcceptsSnapshot ctx.codec args incoming sqlBytes → n.Since ctx.origin →
      args.term = n.ps.currentTerm → (n.role = .follower ∨ args.leaderId = n.id) →
      NodeStep ctx n (some (.stageSnapshot {
        kind := .installation
        lastIncludedIndex := args.lastIncludedIndex
        lastIncludedTerm := args.lastIncludedTerm
        data := args.data })) n
  | restoreState (index term : Nat) (data : Bytes) :
      NodeStep ctx n (some (.restoreSnapshot index term data)) n
  | clearStaged (pendingStagedSnapshot : Option StagedSnapshot) :
      pendingStagedSnapshot = none ∨ pendingStagedSnapshot = n.pendingStagedSnapshot →
      NodeStep ctx n (some .clearStagedSnapshot) { n with pendingStagedSnapshot }
  | install (sender : NodeId) (args : InstallSnapshotArgs) (incoming : Option ClusterMembership)
      (sqlBytes : Bytes) (next : RaftNode) : ctx.Receives sender (.installSnapshot args) →
      ctx.origin.AcceptsSnapshot ctx.codec args incoming sqlBytes → n.Since ctx.origin →
      args.term = n.ps.currentTerm → (n.role = .follower ∨ args.leaderId = n.id) →
      (n.installed args.lastIncludedIndex args.lastIncludedTerm args.data
        incoming).recomputeEffectiveMembership ctx.codec = .ok next →
      NodeStep ctx n next.saved next
  | ackSnapshot (sender : NodeId) (args : InstallSnapshotArgs) :
      ctx.Receives sender (.installSnapshot args) → args.term = n.ps.currentTerm →
      args.lastIncludedIndex ≤ n.ps.snapshotIndex →
      NodeStep ctx n (some (.send sender (.installSnapshotReply {
        term := n.ps.currentTerm
        success := true
        lastIncludedIndex := args.lastIncludedIndex }))) n
  | recordSnapshotMatch (sender : NodeId) (leader : LeaderState) (index : Nat) :
      ctx.Receives sender (.installSnapshotReply
        { term := n.ps.currentTerm, success := true, lastIncludedIndex := index }) →
      n.role = .leader → n.leader = some leader → index ≤ n.ps.snapshotIndex →
      sender ∈ n.effectiveMembership.replicationTargets →
      NodeStep ctx n none { n with leader := some (leader.record sender
        (max ((leader.matchIndex sender).getD 0) index)
        (max ((leader.nextIndex sender).getD 1) (index + 1))) }
  | stageCompaction (snapshot : StagedSnapshot) : snapshot.kind = .creation →
      NodeStep ctx n (some (.stageSnapshot snapshot)) n
  | compact (safeLast : Nat) (data : Bytes) (next : RaftNode) : Compacts ctx n safeLast data →
      (n.compacted safeLast (n.ps.termAt safeLast) data).recomputeEffectiveMembership ctx.codec =
        .ok next →
      NodeStep ctx n next.saved next
  | compactFailed (safeLast : Nat) (data : Bytes) (error : String) : Compacts ctx n safeLast data →
      (n.compacted safeLast (n.ps.termAt safeLast) data).recomputeEffectiveMembership ctx.codec =
        .error error →
      NodeStep ctx n none (n.compacted safeLast (n.ps.termAt safeLast) data)
  -- applying
  | applyMembership (entry : LogEntry) (jointStarted : Bool) (change : MembershipChange)
      (membership : ClusterMembership) (next : RaftNode) : ctx.Applies entry jointStarted →
      n.Since ctx.origin →
      decodeMembershipCommand ctx.codec entry.command = .ok (some change) →
      (n.ps.membership.any fun current => decide (current.configIndex ≥ entry.index)) = false →
      transitionMembership n.committedMembership change entry.index = .ok membership →
      ({ n with ps := { n.ps with membership := some membership }
        }).recomputeEffectiveMembership ctx.codec = .ok next →
      NodeStep ctx n next.saved next
  | handOff (entry : LogEntry) (jointStarted : Bool) : ctx.Applies entry jointStarted →
      n.lastApplied = ctx.origin.lastApplied → n.nextCommitted = some entry →
      (startsWith entry.command membershipChangeTag = true →
        entry.index ≤ n.committedMembership.configIndex) →
      NodeStep ctx n (some (.applyEntry entry)) n
  | pass (entry : LogEntry) (jointStarted : Bool) : ctx.Applies entry jointStarted →
      n.lastApplied = ctx.origin.lastApplied → n.commitIndex = ctx.origin.commitIndex →
      n.nextCommitted = some entry →
      (startsWith entry.command membershipChangeTag = true →
        entry.index ≤ n.committedMembership.configIndex) →
      NodeStep ctx n (some (.passApplied (n.lastApplied + 1) entry))
        { n with lastApplied := n.lastApplied + 1 }
  -- restarting
  | recoverInstall (staged : StagedSnapshot) (incoming : Option ClusterMembership)
      (sqlBytes : Bytes) (next : RaftNode) : ctx.Boots → n.role = .follower →
      n.pendingStagedSnapshot = some staged → staged.kind = .installation →
      n.ps.snapshotIndex < staged.lastIncludedIndex → n.Since ctx.origin →
      n.incomingSnapshot ctx.codec staged.lastIncludedIndex staged.data = .ok (incoming, sqlBytes) →
      (n.installed staged.lastIncludedIndex staged.lastIncludedTerm staged.data
        incoming).recomputeEffectiveMembership ctx.codec = .ok next →
      NodeStep ctx n next.saved { next with pendingStagedSnapshot := none }
  | resave : NodeStep ctx n n.saved n
  | readFrontier (index : Nat) : ctx.Boots → n.ps.snapshotIndex ≤ index →
      index ≤ n.ps.lastLogIndex →
      NodeStep ctx n (some (.readCursor index)) { n with
        commitIndex := max n.commitIndex index, lastApplied := max n.lastApplied index }

end Neuralbase.Consensus
