import Neuralbase.Consensus.Steps.Run

namespace Neuralbase.Consensus

open Neuralbase.Library

/-! Invariants of each node by itself, and what a step can do to the persistent
part of a node.  Proofs about logs go by the cases of `DiskStep`, which leave out
everything a step does elsewhere. -/

namespace Cluster

variable {c : Cluster} {i j : NodeId} {n : RaftNode} {effect : Option Effect}

@[simp] theorem after_node_self : (c.after i effect n).node i = some n := by
  simp [after, setNode]

theorem after_node_other (other : j ≠ i) : (c.after i effect n).node j = c.node j := by
  simp [after, setNode, other]

/-- The nodes running once `i` is set to `node`. -/
theorem setNode_running {node : Option RaftNode} {m : RaftNode} (running : (c.setNode i node).node j = some m) :
    (j = i ∧ node = some m) ∨ (j ≠ i ∧ c.node j = some m) := by
  by_cases same : j = i
  · subst same
    exact .inl ⟨rfl, by simpa [setNode] using running⟩
  · exact .inr ⟨same, by simpa [setNode, same] using running⟩

theorem after_running {m : RaftNode} (running : (c.after i effect n).node j = some m) :
    (j = i ∧ m = n) ∨ (j ≠ i ∧ c.node j = some m) := by
  rcases setNode_running running with ⟨same, ⟨⟩⟩ | ⟨other, running⟩
  · exact .inl ⟨same, rfl⟩
  · rw [performAll_node] at running
    exact .inr ⟨other, running⟩

theorem after_store_self : (c.after i effect n).store i = effect.elim (c.store i) (c.store i).perform := by
  cases effect <;> simp [after, performAll, perform, setNode]

theorem after_store_other (other : j ≠ i) : (c.after i effect n).store j = c.store j := by
  cases effect <;> simp [after, performAll, perform, setNode, other]

theorem after_cursor_self : (c.after i effect n).cursor i = effect.elim (c.cursor i) (advanceCursor (c.cursor i)) := by
  cases effect <;> simp [after, performAll, perform, setNode]

theorem after_cursor_other (other : j ≠ i) : (c.after i effect n).cursor j = c.cursor j := by
  cases effect <;> simp [after, performAll, perform, setNode, other]

theorem after_history : (c.after i effect n).history = c.history ++ effect.toList.map (i, ·) := by
  cases effect <;> simp [after, performAll, perform, setNode]

theorem mem_after_history {e : Effect} : (j, e) ∈ (c.after i effect n).history ↔
    (j, e) ∈ c.history ∨ (j = i ∧ effect = some e) := by
  cases effect with
  | none => simp [after_history]
  | some done => simp [after_history, eq_comm]

end Cluster

theorem Inductive.strengthen {codec : Codec} {allowed : Cluster → Action → Prop}
    {First Second : Cluster → Prop} (kept : Inductive codec allowed First)
    (initial : Second .initial)
    (crash : ∀ {c : Cluster} (i : NodeId), First c → Second c → Second (c.setNode i none))
    (submit : ∀ {c : Cluster} {i : NodeId} {n : RaftNode} {client : ClientId} (payload : Bytes),
      First c → Second c → c.node i = some n → c.freshChannel n client = true →
      Second (c.submit (.clientCommand client payload)))
    (adopt : ∀ {c : Cluster} {a : Action} {config : BootConfig} {n : RaftNode}, allowed c a →
      First c → Second c → a.work = .boot config → Begins codec c a n →
      Second (c.setNode a.node (some n)))
    (step : ∀ {start : Cluster} {a : Action} {origin : RaftNode} {c : Cluster} {n : RaftNode}
      {effect : Option Effect} {next : RaftNode}, allowed start a → First start → Second start →
      First c → Second c → First (c.after a.node effect next) →
      ClusterStep codec start a origin c n effect next → Second (c.after a.node effect next)) :
    Inductive codec allowed fun c => First c ∧ Second c where
  initial := ⟨kept.initial, initial⟩
  crash := fun i holds => ⟨kept.crash i holds.1, crash i holds.1 holds.2⟩
  submit := fun payload holds running fresh =>
    ⟨kept.submit payload holds.1 running fresh, submit payload holds.1 holds.2 running fresh⟩
  adopt := fun permits holds work begins =>
    ⟨kept.adopt permits holds.1 work begins, adopt permits holds.1 holds.2 work begins⟩
  step := fun permits before holds taken =>
    have first := kept.step permits before.1 holds.1 taken
    ⟨first, step permits before.1 before.2 holds.1 holds.2 first taken⟩

/-- Something holds of every node with its store and its cursor, and of every
effect. -/
def Everywhere (Node : NodeId → Option RaftNode → Store → Nat → Prop)
    (Done : NodeId → Effect → Prop) (c : Cluster) : Prop :=
  (∀ i, Node i (c.node i) (c.store i) (c.cursor i)) ∧ ∀ i e, (i, e) ∈ c.history → Done i e

theorem Inductive.everywhere {codec : Codec} {allowed : Cluster → Action → Prop}
    {First : Cluster → Prop} {Node : NodeId → Option RaftNode → Store → Nat → Prop}
    {Done : NodeId → Effect → Prop} (kept : Inductive codec allowed First)
    (initial : ∀ i, Node i none .empty 0)
    (crash : ∀ {i node store cursor}, Node i node store cursor → Node i none store cursor)
    (adopt : ∀ {c : Cluster} {a : Action} {config : BootConfig} {n : RaftNode}, allowed c a →
      First c → Everywhere Node Done c → a.work = .boot config →
      Adopted codec config a.node (c.store a.node) n →
      Node a.node (some n) (c.store a.node) (c.cursor a.node))
    (step : ∀ {start : Cluster} {a : Action} {origin : RaftNode} {c : Cluster} {n : RaftNode}
      {effect : Option Effect} {next : RaftNode}, allowed start a → First start →
      Everywhere Node Done start → First c → Everywhere Node Done c →
      ClusterStep codec start a origin c n effect next →
      Node a.node (some next) (effect.elim (c.store a.node) (c.store a.node).perform)
        (effect.elim (c.cursor a.node) (advanceCursor (c.cursor a.node))) ∧
      ∀ e, effect = some e → Done a.node e) :
    Inductive codec allowed fun c => First c ∧ Everywhere Node Done c := by
  refine kept.strengthen ⟨initial, by simp [Cluster.initial]⟩ ?_ (fun _ _ holds _ _ => holds) ?_ ?_
  · intro c i _ holds
    refine ⟨fun j => ?_, holds.2⟩
    by_cases same : j = i
    · subst same
      simpa [Cluster.setNode] using crash (holds.1 j)
    · simpa [Cluster.setNode, same] using holds.1 j
  · intro c a config n permits first holds work begins
    rw [Begins, work] at begins
    refine ⟨fun j => ?_, holds.2⟩
    by_cases same : j = a.node
    · subst same
      simpa [Cluster.setNode] using adopt permits first holds work begins.2
    · simpa [Cluster.setNode, same] using holds.1 j
  · intro start a origin c n effect next permits before startHolds first holds _ taken
    obtain ⟨node, done⟩ := step permits before startHolds first holds taken
    refine ⟨fun j => ?_, fun j e inside => ?_⟩
    · by_cases same : j = a.node
      · subst same
        rw [Cluster.after_node_self, Cluster.after_store_self, Cluster.after_cursor_self]
        exact node
      · rw [Cluster.after_node_other same, Cluster.after_store_other same,
          Cluster.after_cursor_other same]
        exact holds.1 j
    · rcases Cluster.mem_after_history.mp inside with earlier | ⟨rfl, performed⟩
      · exact holds.2 j e earlier
      · exact done e performed

theorem Inductive.trivial {codec : Codec} {allowed : Cluster → Action → Prop} :
    Inductive codec allowed fun _ => True where
  initial := True.intro
  crash := fun _ _ => True.intro
  submit := fun _ _ _ _ => True.intro
  adopt := fun _ _ _ _ => True.intro
  step := fun _ _ _ _ => True.intro

theorem ClusterStep.begun {codec : Codec} {start c : Cluster} {a : Action}
    {origin n next : RaftNode} {effect : Option Effect} (taken : ClusterStep codec start a origin c n effect next)
    (running : ∀ config, a.work ≠ .boot config) : start.node a.node = some origin := by
  have begins := taken.begins
  unfold Begins at begins
  split at begins
  · exact begins.1
  · exact begins.1
  · rename_i config work
    exact absurd work (running config)

/-- Where a snapshot that a node installs comes from: its leader, or its own
staging area after a restart. -/
inductive Installs (ctx : Context) (n : RaftNode) :
    Nat → Nat → Bytes → Option ClusterMembership → Prop
  | received (sender : NodeId) (args : InstallSnapshotArgs) (incoming : Option ClusterMembership)
      (sqlBytes : Bytes) : ctx.Receives sender (.installSnapshot args) →
      ctx.origin.AcceptsSnapshot ctx.codec args incoming sqlBytes → n.Since ctx.origin →
      args.term = n.ps.currentTerm → (n.role = .follower ∨ args.leaderId = n.id) →
      Installs ctx n args.lastIncludedIndex args.lastIncludedTerm args.data incoming
  | recovered (staged : StagedSnapshot) (incoming : Option ClusterMembership) (sqlBytes : Bytes) :
      ctx.Boots → n.role = .follower → n.pendingStagedSnapshot = some staged → staged.kind = .installation →
      n.ps.snapshotIndex < staged.lastIncludedIndex → n.Since ctx.origin →
      n.incomingSnapshot ctx.codec staged.lastIncludedIndex staged.data =
        .ok (incoming, sqlBytes) →
      Installs ctx n staged.lastIncludedIndex staged.lastIncludedTerm staged.data incoming

structure Reconfigures (ctx : Context) (n : RaftNode) (membership : ClusterMembership) : Prop where
  since : n.Since ctx.origin
  source : ∃ entry jointStarted change, ctx.Applies entry jointStarted ∧
    decodeMembershipCommand ctx.codec entry.command = .ok (some change) ∧
    (n.ps.membership.any fun current => decide (current.configIndex ≥ entry.index)) = false ∧
    transitionMembership n.committedMembership change entry.index = .ok membership

inductive DiskStep (ctx : Context) (n : RaftNode) : PersistentState → Bytes → Prop
  | same : DiskStep ctx n n.ps n.snapshotData
  | ballot (term : Nat) (vote : Option NodeId) : n.ps.currentTerm ≤ term →
      (term = n.ps.currentTerm → n.ps.votedFor = none ∨ vote = n.ps.votedFor) →
      DiskStep ctx n { n.ps with currentTerm := term, votedFor := vote } n.snapshotData
  | append (command : Bytes) : n.role = .leader → command = [] ∨ Proposal ctx n command →
      DiskStep ctx n (n.ps.append n.ps.currentTerm command).1 n.snapshotData
  | replace (sender : NodeId) (args : AppendEntriesArgs) :
      ctx.Receives sender (.appendEntries args) → ctx.origin.AcceptsAppend args →
      n.Since ctx.origin → args.term = n.ps.currentTerm →
      (n.role = .follower ∨ args.leaderId = n.id) → args.entries ≠ [] →
      DiskStep ctx n (n.ps.truncateAndAppend args.prevLogIndex args.entries) n.snapshotData
  | install (index term : Nat) (data : Bytes) (incoming : Option ClusterMembership) :
      Installs ctx n index term data incoming →
      DiskStep ctx n ({ n.ps with
        membership := incoming.orElse fun _ => n.ps.membership }.installSnapshot index term) data
  | compact (safeLast : Nat) (data : Bytes) : Compacts ctx n safeLast data →
      DiskStep ctx n (n.ps.installSnapshot safeLast (n.ps.termAt safeLast)) data
  | reconfigure (membership : ClusterMembership) : Reconfigures ctx n membership →
      DiskStep ctx n { n.ps with membership := some membership } n.snapshotData

section NodeStep

variable {ctx : Context} {n next : RaftNode} {effect : Option Effect}

theorem RaftNode.nextCommitted_mem {entry : LogEntry} (found : n.nextCommitted = some entry) : entry ∈ n.ps.log := by
  unfold RaftNode.nextCommitted at found
  split at found
  · cases found
  · exact List.mem_of_getElem? found

theorem diskStep_demoted {term : Nat} (reached : n.ps.currentTerm ≤ term) :
    DiskStep ctx n (n.demoted term).ps n.snapshotData := by
  unfold RaftNode.demoted
  by_cases rises : term > n.ps.currentTerm
  · simp only [rises, if_true]
    exact .ballot term none reached (by omega)
  · simp only [rises, if_false]
    exact .same

theorem diskStep_voted {args : RequestVoteArgs} (free : n.alreadyVoted args = false) :
    DiskStep ctx n (n.voted args.candidateId).ps n.snapshotData := by
  refine .ballot n.ps.currentTerm (some args.candidateId) le_rfl fun _ => ?_
  unfold RaftNode.alreadyVoted at free
  cases vote : n.ps.votedFor with
  | none => exact .inl rfl
  | some voted =>
    simp only [vote, Option.any_some, decide_eq_false_iff_not, not_not] at free
    exact .inr (by rw [free])

theorem NodeStep.disk (step : NodeStep ctx n effect next) : DiskStep ctx n next.ps next.snapshotData := by
  cases step with
  | stepDown term _ _ _ reached => exact diskStep_demoted reached
  | campaign => exact .ballot (n.ps.currentTerm + 1) (some n.id) (by omega) (by omega)
  | grantVote sender args _ _ free => exact diskStep_voted free
  | appendBarrier leads => exact .append [] leads (.inl rfl)
  | propose command next leads proposal folded =>
    obtain ⟨_, _, _, _, rfl⟩ := RaftNode.recompute_eq folded
    exact .append command leads (.inr proposal)
  | proposeFailed command error leads proposal _ => exact .append command leads (.inr proposal)
  | accept sender args next received accepts since term follows entries folded =>
    obtain ⟨_, _, _, _, rfl⟩ := RaftNode.recompute_eq folded
    exact .replace sender args received accepts since term follows entries
  | install sender args incoming sqlBytes next received accepts since term follows folded =>
    obtain ⟨_, _, _, _, rfl⟩ := RaftNode.recompute_eq folded
    exact .install _ _ _ _ (.received sender args incoming sqlBytes received accepts since term
      follows)
  | compact safeLast data next compacts folded =>
    obtain ⟨_, _, _, _, rfl⟩ := RaftNode.recompute_eq folded
    exact .compact safeLast data compacts
  | compactFailed safeLast data error compacts _ => exact .compact safeLast data compacts
  | applyMembership entry jointStarted change membership next applies since decoded unknown
      advanced folded =>
      obtain ⟨_, _, _, _, rfl⟩ := RaftNode.recompute_eq folded
      exact .reconfigure membership
        ⟨since, entry, jointStarted, change, applies, decoded, unknown, advanced⟩
  | recoverInstall staged incoming sqlBytes next boots follows holds kind above since checked
      folded =>
      obtain ⟨_, _, _, _, rfl⟩ := RaftNode.recompute_eq folded
      exact .install _ _ _ _ (.recovered staged incoming sqlBytes boots follows holds kind above
        since checked)
  | _ => exact .same

theorem NodeStep.saves {ps : PersistentState} {data : Bytes}
    (step : NodeStep ctx n effect next) (saved : effect = some (.save ps data)) :
    ps = next.ps ∧ data = next.snapshotData := by
  have written : ∀ {m : RaftNode}, m.saved = some (.save ps data) →
      ps = m.ps ∧ data = m.snapshotData := by
    intro m saved
    unfold RaftNode.saved at saved
    split at saved
    · cases saved
      exact ⟨rfl, rfl⟩
    · cases saved
  cases step with
  | notify effect harmless =>
    cases saved
    exact harmless.elim
  | stepDown | campaign | grantVote | appendBarrier | propose | accept | install | compact
  | applyMembership | recoverInstall | resave => exact written saved
  | _ => cases saved

inductive SendStep (ctx : Context) (n : RaftNode) (peer : NodeId) : RaftMessage → Prop
  | harmless (message : RaftMessage) : (Effect.send peer message).Harmless →
      SendStep ctx n peer message
  | callVote : n.role = .candidate → peer ≠ n.id → SendStep ctx n peer (.requestVote n.voteRequest)
  | sendVote (args : RequestVoteArgs) : ctx.Receives peer (.requestVote args) →
      args.term = n.ps.currentTerm → n.ps.votedFor = some args.candidateId →
      SendStep ctx n peer (.requestVoteReply { term := n.ps.currentTerm, voteGranted := true })
  | heartbeat : n.role = .leader → peer ≠ n.id → SendStep ctx n peer (n.heartbeatFor peer)
  | ackAppend (args : AppendEntriesArgs) : ctx.Receives peer (.appendEntries args) →
      ctx.origin.AcceptsAppend args → args.term = n.ps.currentTerm → n.ps.Stored args →
      (args.entries = [] → n.ps.log = ctx.origin.ps.log ∧
        n.ps.snapshotIndex = ctx.origin.ps.snapshotIndex) →
      SendStep ctx n peer (.appendEntriesReply (n.appendReply true))
  | ackSnapshot (args : InstallSnapshotArgs) : ctx.Receives peer (.installSnapshot args) →
      args.term = n.ps.currentTerm → args.lastIncludedIndex ≤ n.ps.snapshotIndex →
      SendStep ctx n peer (.installSnapshotReply {
        term := n.ps.currentTerm
        success := true
        lastIncludedIndex := args.lastIncludedIndex })

theorem NodeStep.sends {peer : NodeId} {message : RaftMessage} (step : NodeStep ctx n effect next)
    (sent : effect = some (.send peer message)) : next = n ∧ SendStep ctx n peer message := by
  have silent : ∀ {m : RaftNode}, m.saved ≠ some (.send peer message) := by
    intro m saved
    unfold RaftNode.saved at saved
    split at saved <;> cases saved
  cases step with
  | notify effect harmless =>
    cases sent
    exact ⟨rfl, .harmless message harmless⟩
  | callVote peer candidate other =>
    cases sent
    exact ⟨rfl, .callVote candidate other⟩
  | sendVote sender args received term voted =>
    cases sent
    exact ⟨rfl, .sendVote args received term voted⟩
  | heartbeat peer leads other =>
    cases sent
    exact ⟨rfl, .heartbeat leads other⟩
  | ackAppend sender args received accepts term stored unchanged =>
    cases sent
    exact ⟨rfl, .ackAppend args received accepts term stored unchanged⟩
  | ackSnapshot sender args received term covered =>
    cases sent
    exact ⟨rfl, .ackSnapshot args received term covered⟩
  | stepDown | campaign | grantVote | appendBarrier | propose | accept | install | compact
  | applyMembership | recoverInstall | resave => exact absurd sent silent
  | _ => cases sent

theorem heartbeatFor_cases (n : RaftNode) (peer : NodeId) : (∃ args, n.heartbeatFor peer = .appendEntries args) ∨
      ∃ args, n.heartbeatFor peer = .installSnapshot args := by
  unfold RaftNode.heartbeatFor
  dsimp only
  split
  · exact .inr ⟨_, rfl⟩
  · exact .inl ⟨_, rfl⟩

/-- What an AppendEntries says: everything from `following` on. -/
theorem heartbeatFor_appendEntries {peer : NodeId} {args : AppendEntriesArgs}
    (beat : n.heartbeatFor peer = .appendEntries args) : ∃ following,
      (n.snapshotData = [] ∨ n.ps.snapshotIndex < following) ∧ args = {
        term := n.ps.currentTerm
        leaderId := n.id
        prevLogIndex := following - 1
        prevLogTerm := n.ps.termAt (following - 1)
        entries := n.ps.entriesFrom following
        leaderCommit := n.commitIndex } := by
  unfold RaftNode.heartbeatFor at beat
  dsimp only at beat
  split at beat
  · cases beat
  · rename_i reachable
    cases beat
    refine ⟨_, ?_, rfl⟩
    by_cases empty : n.snapshotData = []
    · exact .inl empty
    · exact .inr (by simpa [empty] using reachable)

theorem heartbeatFor_installSnapshot {peer : NodeId} {args : InstallSnapshotArgs}
    (beat : n.heartbeatFor peer = .installSnapshot args) : n.snapshotData ≠ [] ∧ args = {
      term := n.ps.currentTerm
      leaderId := n.id
      lastIncludedIndex := n.ps.snapshotIndex
      lastIncludedTerm := n.ps.snapshotTerm
      data := n.snapshotData
      done := true } := by
  unfold RaftNode.heartbeatFor at beat
  dsimp only at beat
  split at beat
  · rename_i compacted
    cases beat
    exact ⟨compacted.1, rfl⟩
  · cases beat

theorem SendStep.appendEntries {peer : NodeId} {args : AppendEntriesArgs}
    (sends : SendStep ctx n peer (.appendEntries args)) :
    n.role = .leader ∧ peer ≠ n.id ∧ n.heartbeatFor peer = .appendEntries args := by
  generalize message : RaftMessage.appendEntries args = request at sends
  cases sends with
  | harmless _ harmless => subst message; exact harmless.elim
  | heartbeat leads other => exact ⟨leads, other, rfl⟩
  | _ => cases message

theorem SendStep.installSnapshot {peer : NodeId} {args : InstallSnapshotArgs}
    (sends : SendStep ctx n peer (.installSnapshot args)) :
    n.role = .leader ∧ peer ≠ n.id ∧ n.heartbeatFor peer = .installSnapshot args := by
  generalize message : RaftMessage.installSnapshot args = request at sends
  cases sends with
  | harmless _ harmless => subst message; exact harmless.elim
  | heartbeat leads other => exact ⟨leads, other, rfl⟩
  | _ => cases message

theorem NodeStep.bootstrap_eq (step : NodeStep ctx n effect next) :
    next.bootstrapMembership = n.bootstrapMembership := by
  cases step with
  | propose | accept | install | compact | applyMembership | recoverInstall =>
    rename_i folded
    obtain ⟨_, _, _, _, rfl⟩ := RaftNode.recompute_eq folded
    rfl
  | _ => rfl

theorem NodeStep.effective (step : NodeStep ctx n effect next) : next.effectiveMembership = n.effectiveMembership ∨
      (RaftNode.foldMembership ctx.codec next.committedMembership.configIndex
          next.committedMembership next.ps.log = .ok next.effectiveMembership ∧ next.effectiveMembership.Valid) := by
  cases step with
  | propose | accept | install | compact | applyMembership | recoverInstall =>
    rename_i folded
    obtain ⟨_, _, fold, valid, rfl⟩ := RaftNode.recompute_eq folded
    exact .inr ⟨fold, valid⟩
  | _ => exact .inl rfl

end NodeStep

end Neuralbase.Consensus
