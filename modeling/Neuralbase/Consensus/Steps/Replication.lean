import Neuralbase.Consensus.Steps.Election

namespace Neuralbase.Consensus

open Neuralbase.Library

/-! Replication and snapshot installation as paths of steps. -/

namespace RaftNode

variable {ctx : Context} {store : Store} {cursor : Nat} {n : RaftNode}

section Messages

variable {sender : NodeId}

theorem Since.termAt {m : RaftNode} (since : m.Since n) (index : Nat) : m.ps.termAt index = n.ps.termAt index := by
  simp only [PersistentState.termAt, since.log, since.snapshotIndex]

theorem path_followCommit {args : AppendEntriesArgs}
    (received : ctx.Receives sender (.appendEntries args)) (accepts : ctx.origin.AcceptsAppend args)
    (term : args.term = n.ps.currentTerm) (follows : n.role = .follower ∨ args.leaderId = n.id)
    (stored : n.ps.Stored args) : Path ctx store cursor n (n.followCommit args.leaderCommit) := by
  unfold followCommit
  split
  · rename_i ahead
    exact (Path.refl n).silent (.followCommit sender args received accepts term follows stored ahead)
  · exact .refl n

theorem followCommit_eq (n : RaftNode) (leaderCommit : Nat) :
    ∃ commitIndex, n.followCommit leaderCommit = { n with commitIndex } := by
  unfold followCommit
  split
  · exact ⟨_, rfl⟩
  · exact ⟨n.commitIndex, rfl⟩

theorem path_acknowledge {args : AppendEntriesArgs}
    (received : ctx.Receives sender (.appendEntries args)) (accepts : ctx.origin.AcceptsAppend args)
    (term : args.term = n.ps.currentTerm) (follows : n.role = .follower ∨ args.leaderId = n.id)
    (stored : n.ps.Stored args) (heartbeat : args.entries = [] → n.ps.log = ctx.origin.ps.log ∧
      n.ps.snapshotIndex = ctx.origin.ps.snapshotIndex) :
    Path ctx store cursor n ((n.followCommit args.leaderCommit).send sender
      (.appendEntriesReply ((n.followCommit args.leaderCommit).appendReply true))) := by
  have followed : Path ctx store cursor n (n.followCommit args.leaderCommit) :=
    path_followCommit received accepts term follows stored
  obtain ⟨commitIndex, result⟩ := followCommit_eq n args.leaderCommit
  rw [result] at followed ⊢
  exact followed.act (.ackAppend sender args received accepts term stored heartbeat) trivial

theorem reaches_onAppendEntries {args : AppendEntriesArgs} (begun : ctx.origin = n)
    (received : ctx.Receives sender (.appendEntries args))
    (drained : n.commitIndex ≤ n.lastApplied) :
    Reaches ctx store cursor n ((n.onAppendEntries ctx.codec args).map fun (m, reply) =>
      m.send sender (.appendEntriesReply reply)) := by
  unfold onAppendEntries
  split
  · exact path_notify rfl
  rename_i permitted
  simp only [Bool.or_eq_true, not_or, Bool.not_eq_true, Bool.not_eq_false'] at permitted
  split
  · exact path_notify rfl
  rename_i current
  have rises : n.ps.currentTerm ≤ args.term := by omega
  have since : (n.stepDownFor args.term args.leaderId).Since n := stepDownFor_since
  have term := stepDownFor_currentTerm args.leaderId rises
  have follows := stepDownFor_role args.leaderId rises
  have path : Path ctx store cursor n (n.stepDownFor args.term args.leaderId) :=
    path_stepDownFor begun received rises drained
  generalize n.stepDownFor args.term args.leaderId = m at since term follows path
  dsimp only
  split
  · exact (path.silent (.soft (some args.leaderId) _ _ _ _ _ _ _)).trans (path_notify rfl)
  rename_i consistent
  have matched : args.prevLogIndex > 0 → m.ps.termAt args.prevLogIndex = args.prevLogTerm := by
    simpa [prevLogMismatch] using consistent
  have accepts : ctx.origin.AcceptsAppend args := by
    refine ⟨by rw [begun]; exact permitted.1, by rw [begun]; exact permitted.2,
      by rw [begun]; exact rises, ?_⟩
    simpa [prevLogMismatch, begun, since.termAt] using matched
  have seen := path.silent (.soft (some args.leaderId) m.servingReady true
    m.recoveryReadinessPending m.applyTx m.confirmedApplyTx m.transferInProgress
    m.pendingMembershipRpcs)
  split
  · rename_i empty
    exact seen.trans (path_acknowledge received accepts term.symm follows
      ⟨m.ps, matched, by simp [empty]⟩ fun _ => ⟨by rw [begun]; exact since.log,
        by rw [begun]; exact since.snapshotIndex⟩)
  · rename_i nonempty
    split
    · exact ⟨_, seen, rfl⟩
    · rename_i next folded
      have accepted := seen.persist (.accept sender args next received accepts
        (by rw [begun]; exact since) term.symm follows nonempty folded)
      obtain ⟨membership, leader, _, _, rfl⟩ := recompute_eq folded
      refine accepted.trans (path_acknowledge received accepts ?_ ?_ ?_
        fun empty => absurd empty nonempty)
      · rw [persist_ps]
        exact term.symm
      · rw [persist_role, persist_id]
        exact follows
      · rw [persist_ps]
        exact ⟨m.ps, matched, by rw [if_neg nonempty]; rfl⟩

theorem path_onAppendEntriesReply {reply : AppendEntriesReply} (begun : ctx.origin = n)
    (received : ctx.Receives sender (.appendEntriesReply reply)) (drained : n.commitIndex ≤ n.lastApplied) :
    Path ctx store cursor n (n.onAppendEntriesReply sender reply) := by
  unfold onAppendEntriesReply
  split
  · exact path_becomeFollower begun received (by omega) drained
  split
  · exact .refl n
  split
  · exact .refl n
  rename_i current leads
  simp only [not_or, not_not] at current leads
  split
  · exact .refl n
  rename_i leader tracking
  split
  · rename_i success
    refine ((Path.refl n).silent (.recordMatch sender leader reply.matchIndex ?_ leads.1 tracking
      leads.2)).trans path_tryAdvanceCommit
    rw [← current, ← success]
    exact received
  · exact (Path.refl n).silent (.retarget leader _ tracking)

theorem path_onInstallSnapshotReply {reply : InstallSnapshotReply} (begun : ctx.origin = n)
    (received : ctx.Receives sender (.installSnapshotReply reply)) (drained : n.commitIndex ≤ n.lastApplied) :
    Path ctx store cursor n (n.onInstallSnapshotReply sender reply) := by
  unfold onInstallSnapshotReply
  split
  · exact path_becomeFollower begun received (by omega) drained
  split
  · exact .refl n
  split
  · exact .refl n
  split
  · exact .refl n
  split
  · exact .refl n
  rename_i current leads reached target
  simp only [not_or, not_not, Bool.not_eq_true, Bool.not_eq_false'] at current leads target
  refine Path.trans ?_ path_tryAdvanceCommit
  split
  · exact .refl n
  · rename_i leader tracking
    refine (Path.refl n).silent (.recordSnapshotMatch sender leader reply.lastIncludedIndex ?_ leads.1
      tracking (by omega) target)
    rw [← current, ← leads.2]
    exact received

end Messages

section Install

variable {sender : NodeId} {args : InstallSnapshotArgs} {incoming : Option ClusterMembership}
  {sqlBytes : Bytes}

theorem reaches_publishIncoming (received : ctx.Receives sender (.installSnapshot args))
    (accepts : ctx.origin.AcceptsSnapshot ctx.codec args incoming sqlBytes)
    (since : n.Since ctx.origin) (term : args.term = n.ps.currentTerm)
    (follows : n.role = .follower ∨ args.leaderId = n.id) :
    Reaches ctx store cursor n ((n.publishIncoming ctx.codec args incoming).map fun (m, reply) =>
      m.send sender (.installSnapshotReply reply)) := by
  unfold publishIncoming publishSnapshot
  cases folded : (n.installed args.lastIncludedIndex args.lastIncludedTerm args.data
      incoming).recomputeEffectiveMembership ctx.codec with
  | error error => exact ⟨n, .refl n, rfl⟩
  | ok next =>
    have published : Path ctx store cursor n next.persist := (Path.refl n).persist
      (.install sender args incoming sqlBytes next received accepts since term follows folded)
    obtain ⟨membership, leader, _, _, result⟩ := recompute_eq folded
    have boundary : next.persist.ps.snapshotIndex = args.lastIncludedIndex := by
      rw [persist_ps, result]
      rfl
    have sameTerm : args.term = next.persist.ps.currentTerm := by
      rw [persist_ps, result]
      exact term
    show Path ctx store cursor n _
    simp only [snapshotReply, boundary]
    exact published.act (.ackSnapshot sender args received sameTerm boundary.ge) trivial

theorem reaches_stageAndPublish {env : Environment}
    (received : ctx.Receives sender (.installSnapshot args))
    (accepts : ctx.origin.AcceptsSnapshot ctx.codec args incoming sqlBytes)
    (since : n.Since ctx.origin) (term : args.term = n.ps.currentTerm)
    (follows : n.role = .follower ∨ args.leaderId = n.id)
    (still : n.io.foldl advanceCursor cursor = cursor) :
    Reaches ctx store cursor n ((n.stageAndPublish ctx.codec env args incoming sqlBytes).map
      fun (m, reply) => m.send sender (.installSnapshotReply reply)) := by
  unfold stageAndPublish
  split
  · exact ⟨n, .refl n, rfl⟩
  have staged : Path ctx store cursor n _ := (Path.refl n).act
    (.stageInstall sender args incoming sqlBytes received accepts since term follows) trivial
  dsimp only
  split
  · have installing : (n.io ++ [Effect.stageSnapshot {
        kind := .installation
        lastIncludedIndex := args.lastIncludedIndex
        lastIncludedTerm := args.lastIncludedTerm
        data := args.data }]).foldl Store.perform store =
          (n.io.foldl Store.perform store).stageSnapshot {
            kind := .installation
            lastIncludedIndex := args.lastIncludedIndex
            lastIncludedTerm := args.lastIncludedTerm
            data := args.data } := by
      simp [Store.perform]
    refine (staged.act (.restoreState args.lastIncludedIndex args.lastIncludedTerm sqlBytes)
      (.inl ⟨_, congrArg Store.stagedSnapshot installing, rfl, rfl⟩)).reaches (reaches_publishIncoming received accepts
        since term follows)
  · split
    · exact ⟨_, staged, rfl⟩
    · refine (staged.act (.clearStaged _ (.inr rfl)) ?_).trans (path_notify rfl)
      simp [emit, Effect.Permitted, advanceCursor, still]

theorem reaches_installIncoming {env : Environment}
    (received : ctx.Receives sender (.installSnapshot args))
    (accepts : ctx.origin.AcceptsSnapshot ctx.codec args incoming sqlBytes)
    (since : n.Since ctx.origin) (term : args.term = n.ps.currentTerm)
    (follows : n.role = .follower ∨ args.leaderId = n.id)
    (still : n.io.foldl advanceCursor cursor = cursor) :
    Reaches ctx store cursor n ((n.installIncoming ctx.codec env args incoming sqlBytes).map
      fun (m, reply) => m.send sender (.installSnapshotReply reply)) := by
  unfold installIncoming
  split
  · split
    · exact path_notify rfl
    split
    · exact path_notify rfl
    · exact reaches_stageAndPublish received accepts since term follows still
  split
  · exact ⟨n, .refl n, rfl⟩
  · exact reaches_publishIncoming received accepts since term follows

theorem Since.incomingSnapshot {m : RaftNode} (since : m.Since n) (codec : Codec) (boundary : Nat)
    (data : Bytes) : m.incomingSnapshot codec boundary data = n.incomingSnapshot codec boundary data := by
  simp only [RaftNode.incomingSnapshot, validateIncomingSnapshotMembership, since.membership]

theorem reaches_onInstallSnapshot {env : Environment} (begun : ctx.origin = n)
    (received : ctx.Receives sender (.installSnapshot args))
    (drained : n.commitIndex ≤ n.lastApplied) (idle : n.io = []) :
    Reaches ctx store cursor n ((n.onInstallSnapshot ctx.codec env args).map fun (m, reply) =>
      m.send sender (.installSnapshotReply reply)) := by
  unfold onInstallSnapshot
  split
  · exact path_notify rfl
  rename_i permitted
  simp only [Bool.or_eq_true, not_or, Bool.not_eq_true, Bool.not_eq_false'] at permitted
  split
  · exact path_notify rfl
  rename_i current
  have rises : n.ps.currentTerm ≤ args.term := by omega
  have since : (n.stepDownFor args.term args.leaderId).Since n := stepDownFor_since
  have term := stepDownFor_currentTerm args.leaderId rises
  have follows := stepDownFor_role args.leaderId rises
  have still := stepDownFor_still args.term args.leaderId cursor idle
  have path : Path ctx store cursor n (n.stepDownFor args.term args.leaderId) :=
    path_stepDownFor begun received rises drained
  generalize n.stepDownFor args.term args.leaderId = m at since term follows path still
  have seen := path.silent (.soft (some args.leaderId) m.servingReady m.successfulAppendSeen
    m.recoveryReadinessPending m.applyTx m.confirmedApplyTx m.transferInProgress
    m.pendingMembershipRpcs)
  dsimp only
  split
  · exact seen.trans (path_notify rfl)
  split
  · rename_i reached
    exact seen.act (.ackSnapshot sender args received term.symm reached) trivial
  rename_i fresh
  split
  · exact seen.trans (path_notify rfl)
  · rename_i incoming sqlBytes checked
    refine seen.reaches (reaches_installIncoming received ?_ ?_ term.symm follows still)
    · rw [begun]
      refine ⟨permitted.1, permitted.2, rises, ?_, ?_⟩
      · rw [← since.snapshotIndex]
        exact Nat.lt_of_not_le fresh
      · rw [← since.incomingSnapshot]
        exact checked
    · rw [begun]
      exact since

end Install

end RaftNode

end Neuralbase.Consensus
