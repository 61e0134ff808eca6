import Neuralbase.Consensus.Steps.Commands

namespace Neuralbase.Consensus

/-! Every event of the loop is a path of steps. -/

namespace RaftNode

variable {ctx : Context} {store : Store} {cursor : Nat} {n : RaftNode} {env : Environment}

theorem path_onMembershipChangeCmd {sender : NodeId} {change : MembershipChange}
    (received : ctx.Receives sender (.membershipChangeCmd change)) (begun : ctx.origin = n)
    (drained : n.commitIndex ≤ n.lastApplied) :
    Path ctx store cursor n (n.onMembershipChangeCmd ctx.codec env sender change) := by
  unfold onMembershipChangeCmd
  split
  · exact path_notify trivial
  have plain := startsWith_encode_compactLogTag ctx.codec change
  have handled : Path ctx store cursor n (n.handleClientCommand ctx.codec env
      (encodeMembershipChange ctx.codec change)).1 :=
    path_handleClientCommand env (fun compaction => by simp [plain] at compaction)
      (fun command unwrapped => .administrator received (Except.ok.inj unwrapped).symm)
      (by rw [begun]; exact .refl) drained
  split
  · rename_i m index accepted
    obtain ⟨_, _, _, _, _, _, _, leads, _⟩ := handleClientCommand_eq_ok accepted plain
    rw [accepted] at handled
    exact (handled.silent (.soft _ _ _ _ _ _ _ _)).trans (path_advanceAndBeat leads)
  · rename_i m error refused
    rw [refused] at handled
    exact handled.trans (path_notify trivial)

theorem initiateLeaderTransfer_eq_ok {m : RaftNode} {target : NodeId}
    (started : n.initiateLeaderTransfer target = .ok m) :
    m = { n with transferInProgress := some target } := by
  unfold initiateLeaderTransfer at started
  dsimp only at started
  split_ifs at started
  exact (Except.ok.inj started).symm

theorem path_transferTo {target : NodeId} : Path ctx store cursor n (n.transferTo target).1 := by
  unfold transferTo
  split
  · exact .refl n
  · rename_i m started
    obtain rfl := initiateLeaderTransfer_eq_ok started
    exact ((Path.refl n).silent (.soft _ _ _ _ _ _ _ _)).trans (path_notify trivial)

theorem path_onLeaderTransfer {sender target : NodeId} :
    Path ctx store cursor n (n.onLeaderTransfer sender target) := by
  unfold onLeaderTransfer
  have transferred : Path ctx store cursor n (n.transferTo target).1 := path_transferTo
  split
  all_goals
    rename_i m _ outcome
    rw [outcome] at transferred
    exact transferred.trans (path_notify trivial)

theorem path_onControlTransfer {guard : MembershipGuard} {target : NodeId} :
    Path ctx store cursor n (n.onControlTransfer guard target) := by
  unfold onControlTransfer
  split
  · exact path_notify trivial
  · exact path_transferTo.trans (path_notify trivial)

theorem path_onTransferRequest : Path ctx store cursor n n.onTransferRequest := by
  unfold onTransferRequest
  split
  · exact path_notify trivial
  · exact path_transferTo.trans (path_notify trivial)

theorem reaches_handleMessage {sender : NodeId} {message : RaftMessage} (begun : ctx.origin = n)
    (received : ctx.Receives sender message) (drained : n.commitIndex ≤ n.lastApplied) (idle : n.io = []) :
    Reaches ctx store cursor n (n.handleMessage ctx.codec env sender message) := by
  cases message with
  | requestVote args => exact path_onRequestVote begun received drained
  | requestVoteReply reply => exact reaches_onRequestVoteReply begun received drained
  | appendEntries args => exact reaches_onAppendEntries begun received drained
  | appendEntriesReply reply => exact path_onAppendEntriesReply begun received drained
  | installSnapshot args => exact reaches_onInstallSnapshot begun received drained idle
  | installSnapshotReply reply => exact path_onInstallSnapshotReply begun received drained
  | membershipChangeCmd change => exact path_onMembershipChangeCmd received begun drained
  | membershipChangeCmdReply success error => exact .refl n
  | leaderTransfer target => exact path_onLeaderTransfer
  | leaderTransferReply success error => exact .refl n
  | timeoutNow term => exact reaches_onTimeoutNow begun received drained

theorem reaches_handleEvent {input : Input} (begun : ctx.origin = n)
    (handles : ctx.work = .event input) (drained : n.commitIndex ≤ n.lastApplied) (idle : n.io = []) :
    Reaches ctx store cursor n (n.handleEvent ctx.codec env input) := by
  cases input with
  | message sender message => exact reaches_handleMessage begun handles drained idle
  | heartbeatTick =>
    show Path ctx store cursor n _
    split
    · rename_i leads
      exact path_sendHeartbeats leads
    · exact .refl n
  | electionTimeout =>
    show Reaches ctx store cursor n (if n.role ≠ .leader then _ else _)
    split
    · rename_i follows
      exact reaches_startElection follows
    · exact .refl n
  | clientCommand client payload => exact path_onClientCommand begun handles drained
  | controlTransfer guard target => exact path_onControlTransfer
  | transferRequest => exact path_onTransferRequest
  | shutdown => exact reaches_stop _
  | transportClosed => exact reaches_stop _

theorem path_settle {transferExpired : Bool} : Path ctx store cursor n (n.settle transferExpired) := by
  unfold settle finishIteration
  split
  · exact .refl n
  · dsimp only
    generalize ready : (if (n.recoveryReadinessPending && !n.committedRemoved n.id) = true then _
      else _ : RaftNode) = m
    have path : Path ctx store cursor n m := by
      rw [← ready]
      split
      · split
        · exact (Path.refl n).silent (.soft _ _ _ _ _ _ _ _)
        · exact .refl n
      · split
        · exact (Path.refl n).silent (.soft _ _ _ _ _ _ _ _)
        · exact .refl n
    split
    · exact path.silent (.soft _ _ _ _ _ _ _ _)
    · exact path

theorem reaches_settle {result : Except Halt RaftNode} {transferExpired : Bool}
    (reached : Reaches ctx store cursor n result) :
    Reaches ctx store cursor n (result.map fun m => m.settle transferExpired) := by
  cases result with
  | ok m => exact Path.trans reached path_settle
  | error halt => exact reached

end RaftNode

end Neuralbase.Consensus
