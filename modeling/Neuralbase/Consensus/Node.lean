import Neuralbase.Consensus.Log
import Neuralbase.Consensus.Payload
import Neuralbase.Library.Ascending
import Mathlib

namespace Neuralbase.Consensus

open Neuralbase.Library

/-! The state of one Raft node and its bookkeeping operations (`consensus/raft.rs`).

A handler of the source mutates `self` and talks to the outside through its
persistence store, its transport, the state machine and its clients' reply
channels.  Here a handler returns the new node, and `io` records what it did
outside, in order, since the current event began.  A crash may cut that record
anywhere. -/

inductive RaftRole where
  | follower
  | candidate
  | leader
deriving DecidableEq

structure LeaderState where
  nextIndex : NodeId → Option Nat
  matchIndex : NodeId → Option Nat

/-- Keep the tracked peers that are still replication targets; a new target starts
at `next`. -/
def LeaderState.retain (leader : LeaderState) (targets : Finset NodeId) (next : Nat) : LeaderState where
  nextIndex := fun id => if id ∈ targets then some ((leader.nextIndex id).getD next) else none
  matchIndex := fun id => if id ∈ targets then some ((leader.matchIndex id).getD 0) else none

def LeaderState.record (leader : LeaderState) (peer : NodeId) (matched next : Nat) : LeaderState where
  nextIndex := Function.update leader.nextIndex peer (some next)
  matchIndex := Function.update leader.matchIndex peer (some matched)

abbrev ClientId := Nat

inductive Effect where
  | save (state : PersistentState) (snapshotData : Bytes)
  | stageSnapshot (snapshot : StagedSnapshot)
  | clearStagedSnapshot
  | send (peer : NodeId) (message : RaftMessage)
  | reply (client : ClientId) (result : Except String Nat)
  /-- An entry is handed to the state machine. -/
  | applyEntry (entry : LogEntry)
  /-- The state machine is replaced by a snapshot. -/
  | restoreSnapshot (index term : Nat) (data : Bytes)
  /-- `last_applied` passes `entry`. -/
  | passApplied (index : Nat) (entry : LogEntry)
  /-- The state machine reports its durable apply cursor. -/
  | readCursor (index : Nat)
  | transferReply (result : Except String NodeId)
  | controlReply (result : Except String Unit)

structure RaftNode where
  id : NodeId
  bootstrapMembership : ClusterMembership
  joiningLearner : Bool
  joiningSeeds : Finset NodeId
  ps : PersistentState
  effectiveMembership : ClusterMembership
  commitIndex : Nat
  lastApplied : Nat
  role : RaftRole
  leaderId : Option NodeId
  votesReceived : Finset NodeId
  leader : Option LeaderState
  snapshotData : Bytes
  /-- Whether a state-machine snapshot store is attached. -/
  snapshotStore : Bool
  pendingStagedSnapshot : Option StagedSnapshot
  servingReady : Bool
  successfulAppendSeen : Bool
  recoveryReadinessPending : Bool
  transferInProgress : Option NodeId
  /-- Whether a persistence store is attached. -/
  persistence : Bool
  applyTx : Bool
  confirmedApplyTx : Bool
  pendingClients : AList fun _ : Nat => ClientId
  pendingMembershipRpcs : AList fun _ : Nat => NodeId
  /-- The reply channel in hand: that of the command being handled, or of the
  entry being applied. -/
  caller : Option ClientId
  io : List Effect

/-- The outcome of every call that leaves the node during one event: the state
machine's snapshot store, the staging area of the persistence store, and whether
the deadline of a running leadership transfer has passed. -/
structure Environment where
  createSnapshot : Nat → Nat → Except String Bytes
  validateSnapshot : Nat → Nat → Bytes → Except String Unit
  restoreSnapshot : Nat → Nat → Bytes → Except String Unit
  stageSnapshot : Except String Unit
  clearStagedSnapshot : Except String Unit
  transferExpired : Bool

structure Halt where
  reason : String
  node : RaftNode

namespace RaftNode

def emit (n : RaftNode) (effect : Effect) : RaftNode := { n with io := n.io ++ [effect] }

def send (n : RaftNode) (peer : NodeId) (message : RaftMessage) : RaftNode :=
  n.emit (.send peer message)

def reply (n : RaftNode) (client : ClientId) (result : Except String Nat) : RaftNode :=
  n.emit (.reply client result)

def answerCaller (n : RaftNode) (result : Except String Nat) : RaftNode :=
  match n.caller with
  | some client => ({ n with caller := none }).reply client result
  | none => n

/-- Leave the channel in hand waiting for the entry at `index`. -/
def enqueueCaller (n : RaftNode) (index : Nat) : RaftNode :=
  match n.caller with
  | some client =>
    { n with caller := none, pendingClients := n.pendingClients.insert index client }
  | none => n

/-- A failing store panics before anything later happens, which is a crash at
this point. -/
def persist (n : RaftNode) : RaftNode :=
  if n.persistence then n.emit (.save n.ps n.snapshotData) else n

def fromBootstrap (id : NodeId) (bootstrapMembership : ClusterMembership) (joiningLearner : Bool)
    (ps : PersistentState) : RaftNode where
  id
  bootstrapMembership
  joiningLearner
  joiningSeeds := ∅
  ps
  effectiveMembership := bootstrapMembership
  commitIndex := 0
  lastApplied := 0
  role := .follower
  leaderId := none
  votesReceived := ∅
  leader := none
  snapshotData := []
  snapshotStore := false
  pendingStagedSnapshot := none
  servingReady := !joiningLearner
  successfulAppendSeen := false
  recoveryReadinessPending := false
  transferInProgress := none
  persistence := false
  applyTx := false
  confirmedApplyTx := false
  pendingClients := ∅
  pendingMembershipRpcs := ∅
  caller := none
  io := []

def new (id : NodeId) (peers : List NodeId) : RaftNode :=
  let bootstrap := ClusterMembership.bootstrap id peers
  fromBootstrap id bootstrap false { PersistentState.new with membership := some bootstrap }

def newLearner (id : NodeId) (seedVoters : List NodeId) : Except String RaftNode := do
  let bootstrap ← ClusterMembership.bootstrapLearner id seedVoters
  pure (fromBootstrap id bootstrap true PersistentState.new)

def newLearnerFromGenesis (id : NodeId) (genesisVoters seedVoters : List NodeId) :
    Except String RaftNode := do
  let node ← newLearner id genesisVoters
  if seedVoters = [] ∨ seedVoters.length > 128 ∨ id ∈ seedVoters then
    throw "invalid joining routing voters"
  pure { node with joiningSeeds := seedVoters.toFinset }

/-- `self.ps.membership.as_ref().is_some_and(|m| m.is_removed(id))`. -/
def committedRemoved (n : RaftNode) (id : NodeId) : Bool := n.ps.membership.any (·.isRemoved id)

def acceptsReplicationFrom (n : RaftNode) (leader : NodeId) : Bool :=
  if n.committedRemoved leader then false
  else
    n.effectiveMembership.isVoter leader ||
      (n.joiningLearner && !n.effectiveMembership.isVoter n.id &&
        !n.effectiveMembership.isRemoved n.id && decide (leader ∈ n.joiningSeeds))

def committedMembership (n : RaftNode) : ClusterMembership :=
  n.ps.membership.getD n.bootstrapMembership

/-- Fold every membership command of `entries` above the starting
`config_index` into `membership`. -/
def foldMembership (codec : Codec) (committedConfigIndex : Nat) :
    ClusterMembership → List LogEntry → Except String ClusterMembership
  | membership, [] => .ok membership
  | membership, entry :: rest =>
    if entry.index ≤ committedConfigIndex then
      foldMembership codec committedConfigIndex membership rest
    else do
      match ← decodeMembershipCommand codec entry.command with
      | none => foldMembership codec committedConfigIndex membership rest
      | some change =>
        let next ← transitionMembership membership change entry.index
        foldMembership codec committedConfigIndex next rest

def syncLeaderTracking (n : RaftNode) : RaftNode :=
  let targets := n.effectiveMembership.replicationTargets.erase n.id
  let next := n.ps.lastLogIndex + 1
  { n with leader := n.leader.map fun leader => leader.retain targets next }

/-- Rebuild the effective configuration from the committed one and every newer
membership command in the local log. -/
def recomputeEffectiveMembership (codec : Codec) (n : RaftNode) : Except String RaftNode := do
  let committed := n.committedMembership
  let membership ← foldMembership codec committed.configIndex committed n.ps.log
  membership.validate
  pure ({ n with effectiveMembership := membership }).syncLeaderTracking

def membershipTransitionActive (n : RaftNode) : Bool :=
  n.committedMembership.isJoint ||
    n.ps.log.any fun entry =>
      decide (entry.index > n.committedMembership.configIndex) &&
        startsWith entry.command membershipChangeTag

/-- Answer and drop the waiter at `index`, if there is one. -/
def failClient (n : RaftNode) (reason : String) (index : Nat) : RaftNode :=
  let n :=
    match n.pendingClients.lookup index with
    | some client =>
      ({ n with pendingClients := n.pendingClients.erase index }).reply client (.error reason)
    | none => n
  { n with pendingMembershipRpcs := n.pendingMembershipRpcs.erase index }

def failUncommittedClients (n : RaftNode) (reason : String) : RaftNode :=
  (n.pendingClients.keys.filter fun index => index > n.commitIndex).foldl
    (fun n index => n.failClient reason index) n

def failAllClients (n : RaftNode) (reason : String) : RaftNode :=
  let n := n.pendingClients.keys.foldl (fun n index => n.failClient reason index) n
  { n with pendingMembershipRpcs := ∅ }

/-- The match map `try_advance_commit` reads.  A leader always has one. -/
def matchMap (n : RaftNode) : NodeId → Option Nat :=
  (n.leader.map LeaderState.matchIndex).getD fun _ => none

/-- Whether `index` is of the current term and stored on a quorum. -/
def commits (n : RaftNode) (index : Nat) : Bool :=
  decide (n.ps.termAt index = n.ps.currentTerm) &&
    n.effectiveMembership.hasMatchQuorum n.id n.matchMap index

def tryAdvanceCommit (n : RaftNode) : RaftNode :=
  if n.role ≠ .leader then n
  else
    let candidates := (List.range' (n.commitIndex + 1) (n.ps.lastLogIndex - n.commitIndex)).reverse
    match candidates.find? n.commits with
    | some index => { n with commitIndex := index }
    | none => n

/-- The message `send_heartbeats` builds for one peer: the snapshot when the
peer's next index is compacted away, else every entry from it on. -/
def heartbeatFor (n : RaftNode) (peer : NodeId) : RaftMessage :=
  let next := (n.leader.bind fun leader => leader.nextIndex peer).getD 1
  if n.snapshotData ≠ [] ∧ next ≤ n.ps.snapshotIndex then
    .installSnapshot {
      term := n.ps.currentTerm
      leaderId := n.id
      lastIncludedIndex := n.ps.snapshotIndex
      lastIncludedTerm := n.ps.snapshotTerm
      data := n.snapshotData
      done := true }
  else
    .appendEntries {
      term := n.ps.currentTerm
      leaderId := n.id
      prevLogIndex := next - 1
      prevLogTerm := n.ps.termAt (next - 1)
      entries := n.ps.entriesFrom next
      leaderCommit := n.commitIndex }

/-- Send `message` to every peer of a `BTreeSet`, in its order. -/
def sendEach (n : RaftNode) (peers : Finset NodeId) (message : NodeId → RaftMessage) : RaftNode :=
  (ascending peers).foldl (fun n peer => n.send peer (message peer)) n

def sendHeartbeats (n : RaftNode) : RaftNode :=
  n.sendEach (n.effectiveMembership.replicationTargets.erase n.id) n.heartbeatFor

/-- Follow `term`; a higher term than the current one is adopted with no vote. -/
def demoted (n : RaftNode) (term : Nat) : RaftNode :=
  let ps :=
    if term > n.ps.currentTerm then { n.ps with currentTerm := term, votedFor := none } else n.ps
  { n with ps, role := .follower, leaderId := none, leader := none, votesReceived := ∅ }

def becomeFollower (n : RaftNode) (term : Nat) : RaftNode :=
  ((n.failUncommittedClients
    "leadership lost before command reached required quorum commit").demoted term).persist

end RaftNode

end Neuralbase.Consensus
