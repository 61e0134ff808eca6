import Neuralbase.Consensus.Steps.Path

namespace Neuralbase.Consensus

open Neuralbase.Library

/-! Elections and leadership as paths of steps. -/

namespace RaftNode

variable {ctx : Context} {store : Store} {cursor : Nat} {n : RaftNode}

section Leadership

theorem path_tryAdvanceCommit : Path ctx store cursor n n.tryAdvanceCommit := by
  unfold tryAdvanceCommit
  split
  · exact .refl n
  · rename_i leads
    dsimp only
    split
    · rename_i index found
      have candidate := List.mem_of_find?_eq_some found
      simp only [List.mem_reverse, List.mem_range'_1] at candidate
      exact (Path.refl n).silent (.advanceCommit index (not_not.mp leads) (by omega) (by omega)
        (List.find?_some found))
    · exact .refl n

theorem tryAdvanceCommit_eq : ∃ commitIndex, n.tryAdvanceCommit = { n with commitIndex } := by
  unfold tryAdvanceCommit
  split
  · exact ⟨n.commitIndex, rfl⟩
  · dsimp only
    split
    · exact ⟨_, rfl⟩
    · exact ⟨n.commitIndex, rfl⟩

theorem path_sendHeartbeats (leads : n.role = .leader) : Path ctx store cursor n n.sendHeartbeats :=
  Path.sendEach fun peer target io =>
    .heartbeat (n := { n with io }) peer leads (Finset.ne_of_mem_erase target)

theorem path_advanceAndBeat (leads : n.role = .leader) : Path ctx store cursor n n.tryAdvanceCommit.sendHeartbeats := by
  refine path_tryAdvanceCommit.trans (path_sendHeartbeats ?_)
  obtain ⟨commitIndex, advanced⟩ := tryAdvanceCommit_eq (n := n)
  rw [advanced]
  exact leads

theorem recompute_eq {codec : Codec} {next : RaftNode}
    (folded : n.recomputeEffectiveMembership codec = .ok next) :
    ∃ membership leader, foldMembership codec n.committedMembership.configIndex
        n.committedMembership n.ps.log = .ok membership ∧ membership.Valid ∧
      next = { n with effectiveMembership := membership, leader } := by
  simp only [recomputeEffectiveMembership, bind_eq_ok, pure_eq_ok,
    ClusterMembership.validate_eq_ok] at folded
  obtain ⟨membership, fold, _, valid, rfl⟩ := folded
  exact ⟨membership, _, fold, valid, rfl⟩

theorem persist_eq : ∃ effects, n.persist = { n with io := n.io ++ effects } := by
  unfold persist
  split
  · exact ⟨_, rfl⟩
  · exact ⟨[], by simp⟩

@[simp] theorem persist_role : n.persist.role = n.role := by
  obtain ⟨effects, persisted⟩ := persist_eq (n := n)
  rw [persisted]

@[simp] theorem persist_id : n.persist.id = n.id := by
  obtain ⟨effects, persisted⟩ := persist_eq (n := n)
  rw [persisted]

@[simp] theorem persist_caller : n.persist.caller = n.caller := by
  obtain ⟨effects, persisted⟩ := persist_eq (n := n)
  rw [persisted]

@[simp] theorem persist_ps : n.persist.ps = n.ps := by
  obtain ⟨effects, persisted⟩ := persist_eq (n := n)
  rw [persisted]

theorem sendEach_eq (n : RaftNode) (peers : Finset NodeId) (message : NodeId → RaftMessage) :
    ∃ effects, n.sendEach peers message = { n with io := n.io ++ effects } := by
  unfold sendEach
  generalize ascending peers = todo
  induction todo generalizing n with
  | nil => exact ⟨[], by simp⟩
  | cons peer rest induction =>
    obtain ⟨effects, sent⟩ := induction (n := n.send peer (message peer))
    refine ⟨.send peer (message peer) :: effects, ?_⟩
    rw [List.foldl_cons, sent]
    simp [send, emit]

theorem path_appendCommand {command : Bytes} (leads : n.role = .leader) (proposal : Proposal ctx n command) :
    Path ctx store cursor n (n.appendCommand ctx.codec command).1 := by
  unfold appendCommand
  cases folded : (n.appended command).recomputeEffectiveMembership ctx.codec with
  | error error => exact (Path.refl n).silent (.proposeFailed command error leads proposal folded)
  | ok next => exact (Path.refl n).persist (.propose command next leads proposal folded)

theorem appendCommand_role {codec : Codec} {command : Bytes} : (n.appendCommand codec command).1.role = n.role := by
  unfold appendCommand
  cases folded : (n.appended command).recomputeEffectiveMembership codec with
  | error error => rfl
  | ok next =>
    obtain ⟨_, _, _, _, rfl⟩ := recompute_eq folded
    exact persist_role

theorem path_ensureJointFinalizeEntry : Path ctx store cursor n (n.ensureJointFinalizeEntry ctx.codec).1 := by
  unfold ensureJointFinalizeEntry
  split
  · exact .refl n
  split
  · exact .refl n
  split
  · exact .refl n
  · rename_i leads committed effective
    exact path_appendCommand (not_not.mp leads) (.finalize (by simpa using committed)
      (by simpa using effective))

theorem ensureJointFinalizeEntry_role (codec : Codec) (n : RaftNode) :
    (n.ensureJointFinalizeEntry codec).1.role = n.role := by
  unfold ensureJointFinalizeEntry
  split
  · rfl
  split
  · rfl
  split
  · rfl
  · exact appendCommand_role

theorem reaches_becomeLeader (runs : n.role = .candidate)
    (elected : n.effectiveMembership.hasVoteQuorum n.votesReceived = true) :
    Reaches ctx store cursor n (n.becomeLeader ctx.codec) := by
  unfold becomeLeader
  split
  · exact (Path.refl n).silent (.retire n.votesReceived (by simp [runs]) subset_rfl)
  · rename_i voter
    have leads : Path ctx store cursor n n.leading :=
      (Path.refl n).silent (.takeLead runs (by simpa using voter) elected)
    dsimp only
    generalize barred : (if (n.recoveryReadinessPending ||
      decide (n.commitIndex < n.ps.lastLogIndex)) = true then (n.leading.appended []).persist
      else n.leading) = m
    have path : Path ctx store cursor n m ∧ m.role = .leader := by
      rw [← barred]
      split
      · exact ⟨leads.persist (.appendBarrier rfl), by simp [appended, leading]⟩
      · exact ⟨leads, rfl⟩
    split
    · have finalized := path.1.trans (path_ensureJointFinalizeEntry)
      have role := ensureJointFinalizeEntry_role ctx.codec m
      split
      · rename_i last error ended
        rw [ended] at finalized
        exact ⟨last, finalized, rfl⟩
      · rename_i last index ended
        rw [ended] at finalized role
        exact finalized.trans (path_advanceAndBeat (role.trans path.2))
    · exact path.1.trans (path_advanceAndBeat path.2)

theorem reaches_startElection (idle : n.role ≠ .leader) : Reaches ctx store cursor n (n.startElection ctx.codec) := by
  unfold startElection
  split
  · exact (Path.refl n).silent (.retire ∅ idle (by simp))
  · rename_i voter
    have campaigned : Path ctx store cursor n n.campaigning.persist :=
      (Path.refl n).persist (.campaign idle (by simpa using voter))
    obtain ⟨effects, persisted⟩ := persist_eq (n := n.campaigning)
    generalize n.campaigning.persist = m at campaigned persisted
    have called : Path ctx store cursor n (m.sendEach
        (m.effectiveMembership.electionTargets.erase m.id) fun _ => .requestVote m.voteRequest) :=
      campaigned.trans (Path.sendEach fun peer target io =>
        .callVote (n := { m with io }) peer (by rw [persisted]; rfl)
          (Finset.ne_of_mem_erase target))
    obtain ⟨sends, sent⟩ := sendEach_eq m (m.effectiveMembership.electionTargets.erase m.id)
      fun _ => .requestVote m.voteRequest
    dsimp only
    rw [sent] at called ⊢
    split
    · rename_i elected
      exact called.reaches (reaches_becomeLeader (by simp [persisted, campaigning]) elected)
    · exact called

end Leadership

section Messages

variable {sender : NodeId}

theorem path_notify {effect : Effect} (harmless : effect.Harmless) : Path ctx store cursor n (n.emit effect) := by
  refine (Path.refl n).act (.notify effect harmless) ?_
  cases effect <;> trivial

theorem path_onRequestVote {args : RequestVoteArgs} (begun : ctx.origin = n)
    (received : ctx.Receives sender (.requestVote args)) (drained : n.commitIndex ≤ n.lastApplied) :
    Path ctx store cursor n ((n.onRequestVote args).1.send sender (.requestVoteReply (n.onRequestVote args).2)) := by
  unfold onRequestVote
  split
  · exact path_notify rfl
  rename_i members
  simp only [Bool.or_eq_true, not_or, Bool.not_eq_true, Bool.not_eq_false'] at members
  split
  · exact path_notify rfl
  rename_i current
  generalize stepped : (if args.term > n.ps.currentTerm then n.becomeFollower args.term else n) = m
  have path : Path ctx store cursor n m ∧ m.Since n ∧ m.ps.currentTerm = args.term := by
    rw [← stepped]
    split
    · rename_i higher
      exact ⟨path_becomeFollower begun received (by omega) drained, becomeFollower_since,
        becomeFollower_currentTerm (by omega)⟩
    · exact ⟨.refl n, .refl, by omega⟩
  obtain ⟨path, since, term⟩ := path
  dsimp only
  cases granted : (!m.alreadyVoted args && m.logUpToDate args) with
  | false =>
    rw [if_neg (by simp)]
    exact path.trans (path_notify rfl)
  | true =>
    rw [if_pos rfl]
    simp only [Bool.and_eq_true, Bool.not_eq_true'] at granted
    have voted := path.persist (.grantVote sender args received term.symm granted.1 granted.2
      (by rw [since.effective, since.id]; exact members.1.1)
      (by rw [since.effective]; exact members.1.2))
    refine voted.act (.sendVote sender args received ?_ ?_) trivial
    · rw [persist_ps]
      exact term.symm
    · rw [persist_ps]
      rfl

theorem reaches_onRequestVoteReply {reply : RequestVoteReply} (begun : ctx.origin = n)
    (received : ctx.Receives sender (.requestVoteReply reply)) (drained : n.commitIndex ≤ n.lastApplied) :
    Reaches ctx store cursor n (n.onRequestVoteReply ctx.codec sender reply) := by
  unfold onRequestVoteReply
  split
  · exact path_becomeFollower begun received (by omega) drained
  split
  · exact .refl n
  split
  · exact .refl n
  rename_i current awaited
  simp only [not_or, not_not, Bool.not_eq_true, Bool.not_eq_false'] at current awaited
  split
  · rename_i granted
    have counted : Path ctx store cursor n
        { n with votesReceived := insert sender n.votesReceived } :=
      (Path.refl n).silent (.countVote sender (by rw [← current, ← granted]; exact received)
        awaited.1 awaited.2)
    dsimp only
    split
    · rename_i elected
      exact counted.reaches (reaches_becomeLeader awaited.1 elected)
    · exact counted
  · exact .refl n

theorem reaches_onTimeoutNow {term : Nat} (begun : ctx.origin = n)
    (received : ctx.Receives sender (.timeoutNow term)) (drained : n.commitIndex ≤ n.lastApplied) :
    Reaches ctx store cursor n (n.onTimeoutNow ctx.codec sender term) := by
  unfold onTimeoutNow
  split
  · exact .refl n
  rename_i campaigns
  push Not at campaigns
  dsimp only
  split
  · exact (path_becomeFollower begun received (by omega) drained).reaches
      (reaches_startElection (by simp [becomeFollower_role]))
  · exact reaches_startElection campaigns.1

end Messages

end RaftNode

end Neuralbase.Consensus
