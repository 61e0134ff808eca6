import Neuralbase.Consensus.Handlers

namespace Neuralbase.Consensus

open Neuralbase.Library

/-! The event loop `RaftNode::spawn` runs (`consensus/raft.rs`).  Each iteration
takes one input, applies every committed entry, and then updates readiness and
the leadership transfer.  Deadlines are not modelled: a timer may fire at any
iteration. -/

/-- What the `select!` of one iteration can pick.  A status request only reads. -/
inductive Input where
  | message (sender : NodeId) (message : RaftMessage)
  | heartbeatTick
  | electionTimeout
  | clientCommand (client : ClientId) (payload : Bytes)
  | controlTransfer (guard : MembershipGuard) (target : NodeId)
  | transferRequest
  | shutdown
  | transportClosed
deriving DecidableEq

/-- How handing one committed entry to the state machine ends.  `applied` says
whether the state machine durably applied the entry although the node never
heard of it. -/
inductive ApplyOutcome where
  | completed
  | failed (applied : Bool) (error : String)
  | completionDropped (applied : Bool)
  | channelClosed
  | shutdownAtHandoff
  | shutdownAwaiting (applied : Bool)
deriving DecidableEq

namespace RaftNode

section Events

variable (codec : Codec) (env : Environment)

def stop (n : RaftNode) (reason : String) : Halt := { reason, node := n.failAllClients reason }

/-- Compaction is acknowledged at once; any other accepted command waits in
`pendingClients` until it is applied. -/
def onClientCommand (n : RaftNode) (client : ClientId) (payload : Bytes) : RaftNode :=
  let directAdminAck := startsWith payload compactLogTag
  match ({ n with caller := some client }).handleClientCommand codec env payload with
  | (n, .ok index) =>
    if directAdminAck then n.answerCaller (.ok index)
    else
      let n := (n.enqueueCaller index).tryAdvanceCommit
      if n.role = .leader then n.sendHeartbeats else n
  | (n, .error error) => n.answerCaller (.error error)

def onControlTransfer (n : RaftNode) (guard : MembershipGuard) (target : NodeId) : RaftNode :=
  match n.validateOperatorGuard guard with
  | .error error => n.emit (.controlReply (.error error))
  | .ok () =>
    let (n, result) := n.transferTo target
    n.emit (.controlReply result)

def onTransferRequest (n : RaftNode) : RaftNode :=
  match n.chooseTransferTarget with
  | .error error => n.emit (.transferReply (.error error))
  | .ok target =>
    let (n, result) := n.transferTo target
    n.emit (.transferReply (result.map fun () => target))

def handleEvent (n : RaftNode) (input : Input) : Except Halt RaftNode :=
  match input with
  | .message sender message => n.handleMessage codec env sender message
  | .heartbeatTick => .ok (if n.role = .leader then n.sendHeartbeats else n)
  | .electionTimeout => if n.role ≠ .leader then n.startElection codec else .ok n
  | .clientCommand client payload => .ok (n.onClientCommand codec env client payload)
  | .controlTransfer guard target => .ok (n.onControlTransfer guard target)
  | .transferRequest => .ok n.onTransferRequest
  | .shutdown => .error (n.stop "raft node shutting down before command apply")
  | .transportClosed => .error (n.stop "raft transport closed before command apply")

end Events

section Apply

variable (codec : Codec)

/-- The committed entry after `lastApplied`, at its physical position.  A
position that underflows is out of range. -/
def nextCommitted (n : RaftNode) : Option LogEntry :=
  if n.lastApplied + 1 < n.ps.snapshotIndex then none
  else n.ps.log[n.lastApplied + 1 - n.ps.snapshotIndex]?

def stateMachineApplies (n : RaftNode) (entry : LogEntry) (applied : Bool) : RaftNode :=
  if applied then n.emit (.applyEntry entry) else n

def handOff (n : RaftNode) (entry : LogEntry) (nextIndex : Nat) (outcome : ApplyOutcome) : Except Halt RaftNode :=
  if n.confirmedApplyTx then
    match outcome with
    | .completed => .ok (n.stateMachineApplies entry true)
    | .failed applied error =>
      .error ((n.stateMachineApplies entry applied).stop
        s!"committed state-machine apply failed at index {nextIndex}: {error}")
    | .completionDropped applied =>
      .error ((n.stateMachineApplies entry applied).stop
        s!"state-machine completion channel dropped at index {nextIndex}")
    | .channelClosed => .error (n.stop "confirmed state-machine apply channel closed")
    | .shutdownAtHandoff => .error (n.stop "raft node shutting down during state-machine apply")
    | .shutdownAwaiting applied =>
      .error ((n.stateMachineApplies entry applied).stop
        "raft node shutting down while awaiting state-machine completion")
  else if n.applyTx then
    match outcome with
    | .channelClosed => .error (n.stop "legacy state-machine apply channel closed")
    | .shutdownAtHandoff => .error (n.stop "raft node shutting down during apply handoff")
    | _ => .ok (n.stateMachineApplies entry true)
  else .ok n

def answerRpc (n : RaftNode) (rpc : Option NodeId) (result : Except String Nat) : RaftNode :=
  match rpc, result with
  | some peer, .ok _ => n.send peer (.membershipChangeCmdReply true none)
  | some peer, .error error => n.send peer (.membershipChangeCmdReply false (some error))
  | none, _ => n

/-- Leave the administrator waiting for the entry that finalizes its joint entry. -/
def awaitRpc (n : RaftNode) (rpc : Option NodeId) (finalIndex : Nat) : RaftNode :=
  match rpc with
  | some peer =>
    { n with pendingMembershipRpcs := n.pendingMembershipRpcs.insert finalIndex peer }
  | none => n

/-- Serve the waiters of the entry at `nextIndex`, the client's channel in hand. -/
def serveWaiters (n : RaftNode) (nextIndex : Nat) (jointStarted : Bool) (rpc : Option NodeId) : RaftNode :=
  if jointStarted then
    if n.role = .leader then
      match n.ensureJointFinalizeEntry codec with
      | (n, .ok finalIndex) =>
        ((n.enqueueCaller finalIndex).awaitRpc rpc finalIndex).tryAdvanceCommit.sendHeartbeats
      | (n, .error error) => (n.answerCaller (.error error)).answerRpc rpc (.error error)
    else
      let error := "joint membership entry committed but leadership changed before finalization; outcome is uncertain and the valid leader must finish the transition"
      (n.answerCaller (.error error)).answerRpc rpc (.error error)
  else (n.answerCaller (.ok nextIndex)).answerRpc rpc (.ok nextIndex)

/-- Advance `lastApplied` past `entry` and serve its waiters. -/
def completeApply (n : RaftNode) (nextIndex : Nat) (entry : LogEntry) (jointStarted : Bool) : RaftNode :=
  let n := ({ n with lastApplied := nextIndex }).emit (.passApplied nextIndex entry)
  let rpc := n.pendingMembershipRpcs.lookup nextIndex
  ({ n with
    caller := n.pendingClients.lookup nextIndex
    pendingClients := n.pendingClients.erase nextIndex
    pendingMembershipRpcs := n.pendingMembershipRpcs.erase nextIndex }).serveWaiters codec
      nextIndex jointStarted rpc

def applyMembershipEntry (n : RaftNode) (entry : LogEntry) : RaftNode × Except String Bool :=
  if startsWith entry.command membershipChangeTag then n.applyCommittedMembership codec entry
  else (n, .ok false)

def applyNext (n : RaftNode) (outcome : ApplyOutcome) : Except Halt RaftNode :=
  let nextIndex := n.lastApplied + 1
  match n.nextCommitted with
  | none => .error (n.stop "committed Raft entry missing from local log")
  | some entry =>
    match n.applyMembershipEntry codec entry with
    | (n, .error error) =>
      .error (n.stop s!"committed membership apply failed at index {nextIndex}: {error}")
    | (n, .ok jointStarted) =>
      match n.handOff entry nextIndex outcome with
      | .error halt => .error halt
      | .ok n => .ok (n.completeApply codec nextIndex entry jointStarted)

end Apply

def finishIteration (n : RaftNode) (transferExpired : Bool) : RaftNode :=
  let removed := n.committedRemoved n.id
  let n :=
    if n.recoveryReadinessPending && !removed then
      let currentTermCommitProven :=
        decide (n.commitIndex > n.ps.snapshotIndex) &&
          decide (n.ps.termAt n.commitIndex = n.ps.currentTerm)
      let followerHasNoUnresolvedTail :=
        decide (n.role ≠ .leader) && n.successfulAppendSeen &&
          decide (n.commitIndex = n.ps.lastLogIndex)
      if decide (n.lastApplied ≥ n.commitIndex) &&
          (currentTermCommitProven || followerHasNoUnresolvedTail) then
        { n with recoveryReadinessPending := false, servingReady := true }
      else n
    else if !n.servingReady && n.successfulAppendSeen &&
        decide (n.lastApplied ≥ n.commitIndex) && !removed then
      { n with servingReady := true }
    else n
  if transferExpired ∨ n.role ≠ .leader then { n with transferInProgress := none } else n

def settle (n : RaftNode) (transferExpired : Bool) : RaftNode :=
  if n.lastApplied < n.commitIndex then n else n.finishIteration transferExpired

end RaftNode

end Neuralbase.Consensus
