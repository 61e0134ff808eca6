import Neuralbase.Consensus.Log.Shape
import Neuralbase.Consensus.Safety.Ballots

namespace Neuralbase.Consensus

open Neuralbase.Library

/-! Clusters whose voters never change.  Learners may come and go: such changes
keep the voters of every membership a node can compute. -/

/-- A change that leaves the voters alone.  `FinalizeJoint` only succeeds in a
joint configuration. -/
def MembershipChange.KeepsVoters (voters : Finset NodeId) : MembershipChange → Prop
  | .addNode _ | .addLearner _ | .finalizeJoint => True
  | .removeNode id => id ∉ voters
  | .promoteLearner _ => False

instance (voters : Finset NodeId) : DecidablePred (MembershipChange.KeepsVoters voters)
  | .addNode _ | .addLearner _ | .finalizeJoint => isTrue trivial
  | .removeNode id => inferInstanceAs (Decidable (id ∉ voters))
  | .promoteLearner _ => isFalse id

def requestedChange (codec : Codec) (payload : Bytes) : Option MembershipChange :=
  if startsWith payload guardedMembershipTag then
    match codec.guardedFromSlice (payload.drop guardedMembershipTag.length) with
    | .ok request => some request.change
    | .error _ => none
  else
    match decodeMembershipCommand codec payload with
    | .ok change => change
    | .error _ => none

def Joining.founders (id : NodeId) : Joining → Finset NodeId
  | .voter peers => insert id peers.toFinset
  | .learner genesisVoters _ => genesisVoters.toFinset

def Work.founders (id : NodeId) : Work → Option (Finset NodeId)
  | .boot config => some (config.joining.founders id)
  | _ => none

def Work.requestedChange (codec : Codec) : Work → Option MembershipChange
  | .event (.clientCommand _ payload) => Consensus.requestedChange codec payload
  | .event (.message _ (.membershipChangeCmd change)) => some change
  | _ => none

/-- Every process starts from `voters`, and nobody asks to change them. -/
def FixedVoters (codec : Codec) (voters : Finset NodeId) (a : Action) : Prop :=
  (∀ founders ∈ a.work.founders a.node, founders = voters) ∧
    ∀ change ∈ a.work.requestedChange codec, change.KeepsVoters voters

def ClusterMembership.Fixed (voters : Finset NodeId) (m : ClusterMembership) : Prop :=
  m.voters = voters ∧ m.joint = none

section Fixed

variable {codec : Codec} {voters : Finset NodeId} {m next : ClusterMembership}

theorem ClusterMembership.Fixed.isVoter (fixed : m.Fixed voters) (id : NodeId) : m.isVoter id = true ↔ id ∈ voters := by
  simp [ClusterMembership.isVoter, fixed.1, fixed.2]

theorem ClusterMembership.Fixed.hasVoteQuorum (fixed : m.Fixed voters) (votes : Finset NodeId) :
    m.hasVoteQuorum votes = true ↔ ClusterMembership.majority voters ≤ ClusterMembership.votesIn voters votes := by
  simp [ClusterMembership.hasVoteQuorum, fixed.1, fixed.2]

theorem ClusterMembership.Fixed.transition {change : MembershipChange} {index : Nat}
    (fixed : m.Fixed voters) (keeps : change.KeepsVoters voters)
    (moved : transitionMembership m change index = .ok next) : next.Fixed voters := by
  cases change with
  | addNode id | addLearner id =>
    obtain ⟨-, -, -, -, -, -, same, -, stable, -⟩ := ClusterMembership.addLearner_eq_ok moved
    exact ⟨same.trans fixed.1, stable⟩
  | promoteLearner id => exact keeps.elim
  | removeNode id =>
    obtain ⟨-, -, -, same, learner | voter⟩ := ClusterMembership.beginRemoval_eq_ok moved
    · exact ⟨same.trans fixed.1, learner.2.2.1⟩
    · exact absurd (fixed.1 ▸ voter.2.1) keeps
  | finalizeJoint =>
    obtain ⟨joint, present, -⟩ := ClusterMembership.finalizeJoint_eq_ok moved
    rw [fixed.2] at present
    cases present

def CommandKeeps (codec : Codec) (voters : Finset NodeId) (command : Bytes) : Prop :=
  ∀ change, decodeMembershipCommand codec command = .ok (some change) → change.KeepsVoters voters

theorem commandKeeps_plain {command : Bytes} (plain : startsWith command membershipChangeTag = false) :
    CommandKeeps codec voters command := by
  intro change decoded
  rw [decodeMembershipCommand_eq_none codec plain] at decoded
  cases decoded

theorem ClusterMembership.Fixed.fold {base : Nat} {log : List LogEntry} (fixed : m.Fixed voters)
    (keeps : ∀ entry ∈ log, CommandKeeps codec voters entry.command)
    (folded : RaftNode.foldMembership codec base m log = .ok next) : next.Fixed voters := by
  induction log generalizing m with
  | nil =>
    cases folded
    exact fixed
  | cons entry rest induction =>
    have later := fun fixed folded => induction (m := m) fixed
      (fun other inside => keeps other (by simp [inside])) folded
    rw [RaftNode.foldMembership] at folded
    split at folded
    · exact later fixed folded
    · obtain ⟨decoded, isDecoded, folded⟩ := bind_eq_ok.mp folded
      cases decoded with
      | none => exact later fixed folded
      | some change =>
        obtain ⟨moved, isMoved, folded⟩ := bind_eq_ok.mp folded
        exact induction (fixed.transition (keeps entry (by simp) change isDecoded) isMoved)
          (fun other inside => keeps other (by simp [inside])) folded

def ClusterMembership.genesis (voters : Finset NodeId) : ClusterMembership where
  formatVersion := membershipFormatVersion
  generation := 1
  configIndex := 0
  voters
  learners := ∅
  joint := none
  removed := ∅

theorem create_bootstrap {id : NodeId} {joining : Joining} {n : RaftNode}
    (created : RaftNode.create id joining = .ok n) : n.bootstrapMembership = .genesis (joining.founders id) := by
  cases joining with
  | voter peers =>
    cases created
    rfl
  | learner genesisVoters seedVoters =>
    simp only [RaftNode.create, RaftNode.newLearnerFromGenesis, RaftNode.newLearner,
      ClusterMembership.bootstrapLearner, bind_eq_ok, guard_eq_ok, pure_eq_ok] at created
    obtain ⟨_, ⟨_, ⟨_, _, _, _, rfl⟩, rfl⟩, _, rfl⟩ := created
    rfl

theorem create_fixed {id : NodeId} {joining : Joining} {n : RaftNode} (created : RaftNode.create id joining = .ok n) :
    n.bootstrapMembership.Fixed (joining.founders id) := by
  rw [create_bootstrap created]
  exact ⟨rfl, rfl⟩

theorem create_membership {id : NodeId} {joining : Joining} {n : RaftNode}
    (created : RaftNode.create id joining = .ok n) (fixed : n.bootstrapMembership.Fixed voters) :
    ∀ m, n.ps.membership = some m → m.Fixed voters := by
  cases joining with
  | voter peers =>
    cases created
    intro m known
    cases known
    exact fixed
  | learner genesisVoters seedVoters =>
    simp only [RaftNode.create, RaftNode.newLearnerFromGenesis, RaftNode.newLearner,
      bind_eq_ok, guard_eq_ok, pure_eq_ok] at created
    obtain ⟨_, ⟨_, _, rfl⟩, _, rfl⟩ := created
    intro m known
    cases known

end Fixed

section Invariant

variable (codec : Codec) (voters : Finset NodeId)

/-- The membership in a snapshot envelope, if there is one, has these voters. -/
def DataKeeps (data : Bytes) : Prop :=
  ∀ m sqlBytes, decodeSnapshotPayload codec data = .ok (some (m, sqlBytes)) → m.Fixed voters

structure PersistentState.Keeps (ps : PersistentState) : Prop where
  membership : ∀ m, ps.membership = some m → m.Fixed voters
  log : ∀ entry ∈ ps.log, CommandKeeps codec voters entry.command

structure RaftNode.Keeps (n : RaftNode) : Prop where
  ps : n.ps.Keeps codec voters
  data : DataKeeps codec voters n.snapshotData
  bootstrap : n.bootstrapMembership.Fixed voters
  effective : n.effectiveMembership.Fixed voters
  staged : ∀ staged, n.pendingStagedSnapshot = some staged → staged.kind = .installation →
    DataKeeps codec voters staged.data

structure Store.Keeps (store : Store) : Prop where
  active : ∀ ps data, store.active = some (ps, data) →
    ps.Keeps codec voters ∧ DataKeeps codec voters data
  staged : ∀ staged, store.stagedSnapshot = some staged → staged.kind = .installation →
    DataKeeps codec voters staged.data

def Effect.Keeps : Effect → Prop
  | .send _ (.appendEntries args) => ∀ entry ∈ args.entries, CommandKeeps codec voters entry.command
  | .send _ (.installSnapshot args) => DataKeeps codec voters args.data
  | _ => True

def VotersKept : Cluster → Prop :=
  Everywhere (fun _ node store _ => (∀ n, node = some n → n.Keeps codec voters) ∧
    store.Keeps codec voters) fun _ effect => effect.Keeps codec voters

variable {codec voters} {start c : Cluster} {a : Action} {origin n next : RaftNode}
  {effect : Option Effect}

theorem RaftNode.Keeps.committed (keeps : n.Keeps codec voters) : n.committedMembership.Fixed voters := by
  unfold RaftNode.committedMembership
  cases known : n.ps.membership with
  | none => exact keeps.bootstrap
  | some m => exact keeps.ps.membership m known

theorem dataKeeps_encode {m : ClusterMembership} {sqlBytes data : Bytes} (fixed : m.Fixed voters)
    (encoded : encodeSnapshotPayload codec m sqlBytes = .ok data) : DataKeeps codec voters data := by
  intro other bytes decoded
  rw [decodeSnapshotPayload_encode encoded] at decoded
  cases decoded
  exact fixed

theorem incomingSnapshot_decoded {boundary : Nat} {data sqlBytes : Bytes} {m : ClusterMembership}
    (checked : n.incomingSnapshot codec boundary data = .ok (some m, sqlBytes)) :
    decodeSnapshotPayload codec data = .ok (some (m, sqlBytes)) := by
  unfold RaftNode.incomingSnapshot at checked
  split at checked
  · cases checked
  · rename_i m' sqlBytes' decoded
    split at checked <;> cases checked
    exact decoded
  · split at checked <;> cases checked

theorem requestedChange_of_unwrap {payload command : Bytes} {change : MembershipChange}
    (unwrapped : n.unwrapGuarded codec payload = .ok command)
    (decoded : decodeMembershipCommand codec command = .ok (some change)) :
    requestedChange codec payload = some change := by
  unfold RaftNode.unwrapGuarded at unwrapped
  unfold requestedChange
  split at unwrapped
  · rename_i guarded
    rw [if_pos guarded]
    split at unwrapped
    · cases unwrapped
    split at unwrapped
    · cases unwrapped
    · rename_i request parsed
      obtain ⟨_, _, encoded⟩ := bind_eq_ok.mp unwrapped
      cases encoded
      rw [decodeMembershipCommand_encode] at decoded
      cases decoded
      simp [parsed]
  · rename_i plain
    cases unwrapped
    simp [plain, decoded]

theorem Proposal.keeps {command : Bytes} (fixed : FixedVoters codec voters a)
    (keeps : n.Keeps codec voters) (proposal : Proposal ⟨codec, a.work, origin⟩ n command) :
    CommandKeeps codec voters command := by
  cases proposal with
  | plain untagged => exact commandKeeps_plain untagged
  | change requests decoded valid =>
    intro change again
    cases requests with
    | client submitted unwrapped =>
      refine fixed.2 change ?_
      rw [show a.work = _ from submitted]
      exact requestedChange_of_unwrap unwrapped again
    | administrator received encoded =>
      rw [encoded, decodeMembershipCommand_encode] at again
      cases again
      refine fixed.2 _ ?_
      rw [show a.work = _ from received]
      rfl
  | finalize joint =>
    rw [ClusterMembership.isJoint, keeps.committed.2] at joint
    cases joint

theorem Installs.keeps {index term : Nat} {data : Bytes} {incoming : Option ClusterMembership}
    (genuine : Genuine start a) (before : VotersKept codec voters start) (keeps : n.Keeps codec voters)
    (installs : Installs ⟨codec, a.work, origin⟩ n index term data incoming) :
    DataKeeps codec voters data ∧ ∀ m, incoming = some m → m.Fixed voters := by
  cases installs with
  | received sender args incoming sqlBytes received accepts =>
    have sent := genuine.sent received rfl
    have kept : DataKeeps codec voters args.data := before.2 _ _ sent
    refine ⟨kept, fun m known => kept m sqlBytes ?_⟩
    subst known
    exact incomingSnapshot_decoded accepts.2.2.2.2
  | recovered staged incoming sqlBytes _ _ holds kind above since checked =>
    have kept := keeps.staged staged holds kind
    refine ⟨kept, fun m known => kept m sqlBytes ?_⟩
    subst known
    exact incomingSnapshot_decoded checked

theorem DiskStep.keeps {ps : PersistentState} {data : Bytes} (genuine : Genuine start a)
    (fixed : FixedVoters codec voters a) (before : VotersKept codec voters start)
    (keeps : n.Keeps codec voters) (disk : DiskStep ⟨codec, a.work, origin⟩ n ps data) :
    ps.Keeps codec voters ∧ DataKeeps codec voters data := by
  have nothing : CommandKeeps codec voters [] := commandKeeps_plain rfl
  cases disk with
  | same => exact ⟨keeps.ps, keeps.data⟩
  | ballot => exact ⟨{ keeps.ps with }, keeps.data⟩
  | append command leads source =>
    refine ⟨⟨keeps.ps.membership, fun entry inside => ?_⟩, keeps.data⟩
    rcases PersistentState.mem_append.mp inside with old | rfl
    · exact keeps.ps.log entry old
    · rcases source with rfl | proposal
      · exact nothing
      · exact proposal.keeps fixed keeps
  | replace sender args received =>
    have sent := genuine.sent received rfl
    refine ⟨⟨keeps.ps.membership, fun entry inside => ?_⟩, keeps.data⟩
    rcases PersistentState.mem_truncateAndAppend inside with old | added
    · exact keeps.ps.log entry old
    · exact before.2 _ _ sent entry added
  | install index term data incoming installs =>
    obtain ⟨kept, known⟩ := installs.keeps genuine before keeps
    refine ⟨⟨fun m holds => ?_, fun entry inside => ?_⟩, kept⟩
    · cases incoming with
      | none => exact keeps.ps.membership m holds
      | some membership => exact known m holds
    · rcases PersistentState.mem_installSnapshot inside with rfl | old
      · exact nothing
      · exact keeps.ps.log entry old
  | compact safeLast data compacts =>
    obtain ⟨m, sqlBytes, holds, -, -, encoded⟩ := compacts.membership
    refine ⟨⟨keeps.ps.membership, fun entry inside => ?_⟩,
      dataKeeps_encode (keeps.ps.membership m holds) encoded⟩
    rcases PersistentState.mem_installSnapshot inside with rfl | old
    · exact nothing
    · exact keeps.ps.log entry old
  | reconfigure membership moves =>
    obtain ⟨since, entry, _, change, applies, decoded, -, moved⟩ := moves
    refine ⟨⟨fun m holds => ?_, keeps.ps.log⟩, keeps.data⟩
    cases holds
    have inside : entry ∈ n.ps.log := by
      rw [since.log]
      exact RaftNode.nextCommitted_mem applies.2.2.1
    exact keeps.committed.transition (keeps.ps.log entry inside change decoded) moved

theorem RaftNode.Keeps.step (genuine : Genuine start a) (fixed : FixedVoters codec voters a)
    (before : VotersKept codec voters start) (keeps : n.Keeps codec voters)
    (step : NodeStep ⟨codec, a.work, origin⟩ n effect next) : next.Keeps codec voters := by
  obtain ⟨ps, data⟩ := step.disk.keeps genuine fixed before keeps
  have bootstrap : next.bootstrapMembership.Fixed voters := by
    rw [step.bootstrap_eq]
    exact keeps.bootstrap
  refine ⟨ps, data, bootstrap, ?_, fun staged holds => ?_⟩
  · rcases step.effective with same | ⟨folded, _⟩
    · rw [same]
      exact keeps.effective
    · refine ClusterMembership.Fixed.fold (m := next.committedMembership) ?_ ps.log folded
      unfold RaftNode.committedMembership
      cases known : next.ps.membership with
      | none => exact bootstrap
      | some m => exact ps.membership m known
  · rcases step.pending with cleared | same
    · rw [cleared] at holds
      cases holds
    · exact keeps.staged staged (same ▸ holds)

theorem Effect.keeps_of_step (keeps : n.Keeps codec voters) {effect : Effect}
    (step : NodeStep ⟨codec, a.work, origin⟩ n (some effect) next) : effect.Keeps codec voters := by
  unfold Effect.Keeps
  split
  · rename_i peer args
    obtain ⟨_, _, beat⟩ := (step.sends rfl).2.appendEntries
    obtain ⟨following, _, rfl⟩ := heartbeatFor_appendEntries beat
    exact fun entry inside => keeps.ps.log entry (PersistentState.mem_entriesFrom inside)
  · rename_i peer args
    obtain ⟨_, _, beat⟩ := (step.sends rfl).2.installSnapshot
    obtain ⟨_, rfl⟩ := heartbeatFor_installSnapshot beat
    exact keeps.data
  · trivial

theorem NodeStep.stages {ctx : Context} {snapshot : StagedSnapshot}
    (step : NodeStep ctx n (some (.stageSnapshot snapshot)) next)
    (kind : snapshot.kind = .installation) : next = n ∧ ∃ sender args incoming sqlBytes,
      ctx.Receives sender (.installSnapshot args) ∧
      ctx.origin.AcceptsSnapshot ctx.codec args incoming sqlBytes ∧ n.Since ctx.origin ∧
      args.term = n.ps.currentTerm ∧ (n.role = .follower ∨ args.leaderId = n.id) ∧ snapshot = {
        kind := .installation
        lastIncludedIndex := args.lastIncludedIndex
        lastIncludedTerm := args.lastIncludedTerm
        data := args.data } := by
  generalize performed : some (Effect.stageSnapshot snapshot) = effect at step
  have silent : ∀ {m : RaftNode}, some (Effect.stageSnapshot snapshot) ≠ m.saved := by
    intro m saved
    unfold RaftNode.saved at saved
    split at saved <;> cases saved
  cases step with
  | notify effect harmless => cases performed; exact harmless.elim
  | stageInstall sender args incoming sqlBytes received accepts since term follows =>
    cases performed
    exact ⟨rfl, sender, args, incoming, sqlBytes, received, accepts, since, term, follows, rfl⟩
  | stageCompaction snapshot creation =>
    cases performed
    rw [creation] at kind
    cases kind
  | stepDown | campaign | grantVote | appendBarrier | propose | accept | install | compact
  | applyMembership | recoverInstall | resave => exact absurd performed silent
  | _ => cases performed

theorem Store.keeps_of_step (genuine : Genuine start a) (fixed : FixedVoters codec voters a)
    (before : VotersKept codec voters start) (keeps : n.Keeps codec voters) {store : Store}
    (holds : store.Keeps codec voters) (step : NodeStep ⟨codec, a.work, origin⟩ n effect next) :
    (effect.elim store store.perform).Keeps codec voters := by
  cases effect with
  | none => exact holds
  | some effect =>
    cases effect with
    | save ps data =>
      obtain ⟨rfl, rfl⟩ := step.saves rfl
      have kept := keeps.step genuine fixed before step
      refine ⟨fun ps data active => ?_, fun staged present => by cases present⟩
      cases active
      exact ⟨kept.ps, kept.data⟩
    | stageSnapshot snapshot =>
      refine ⟨holds.active, fun staged present kind => ?_⟩
      cases present
      obtain ⟨_, sender, args, _, _, received, _, _, _, _, rfl⟩ := step.stages kind
      have sent := genuine.sent received rfl
      exact before.2 _ _ sent
    | clearStagedSnapshot => exact ⟨holds.active, fun staged present => by cases present⟩
    | _ => exact holds

theorem adopted_keeps {config : BootConfig} {i : NodeId} {store : Store}
    (founders : config.joining.founders i = voters) (holds : store.Keeps codec voters)
    (adopted : Adopted codec config i store n) : n.Keeps codec voters := by
  obtain ⟨created, migrated, isCreated, fresh, _, loads⟩ := RaftNode.adopted_loads adopted
  have bootstrap : created.bootstrapMembership.Fixed voters := founders ▸ create_fixed isCreated
  have loaded : (created.durable store).1.Keeps codec voters ∧
      DataKeeps codec voters (created.durable store).2 := by
    cases active : store.active with
    | none =>
      simp only [RaftNode.durable, active, Option.getD_none]
      refine ⟨⟨?_, ?_⟩, ?_⟩
      · exact create_membership isCreated bootstrap
      · rw [fresh.log]
        intro entry inside
        rw [List.mem_singleton.mp inside]
        exact commandKeeps_plain rfl
      · intro m sqlBytes decoded
        cases decoded
    | some saved =>
      simp only [RaftNode.durable, active, Option.getD_some]
      exact holds.active saved.1 saved.2 active
  have migrated : (created.migrate migrated (created.durable store).1).Keeps codec voters := by
    unfold RaftNode.migrate
    split
    · refine ⟨fun m known => ?_, loaded.1.log⟩
      cases known
      exact bootstrap
    · exact loaded.1
  have folded := loads.fold
  obtain ⟨effective, rfl⟩ := loads.eq
  refine ⟨migrated, loaded.2, bootstrap, ?_, fun staged present => holds.staged staged present⟩
  refine ClusterMembership.Fixed.fold (m := _) ?_ migrated.log folded
  unfold RaftNode.committedMembership
  dsimp only
  cases known : (created.migrate _ (created.durable store).1).membership with
  | none => exact bootstrap
  | some m => exact migrated.membership m known

theorem votersKept_inductive {allowed : Cluster → Action → Prop}
    (genuine : ∀ c a, allowed c a → Genuine c a)
    (fixed : ∀ c a, allowed c a → FixedVoters codec voters a) :
    Inductive codec allowed fun c => Ballots c ∧ VotersKept codec voters c := by
  refine Inductive.everywhere (ballots_inductive genuine) (fun i => ?_) (fun holds => ?_)
    (fun permits _ holds work adopted => ?_) (fun permits _ before _ holds taken => ?_)
  · exact ⟨fun n running => (by cases running), fun ps data active => (by cases active),
      fun staged present => (by cases present)⟩
  · exact ⟨fun n running => (by cases running), holds.2⟩
  · have founders := (fixed _ _ permits).1 _ (by rw [work]; rfl)
    refine ⟨fun n running => ?_, (holds.1 _).2⟩
    cases running
    exact adopted_keeps founders (holds.1 _).2 adopted
  · have keeps := (holds.1 _).1 _ taken.node
    refine ⟨⟨fun n running => ?_, ?_⟩, fun effect performed => ?_⟩
    · cases running
      exact keeps.step (genuine _ _ permits) (fixed _ _ permits) before taken.step
    · exact Store.keeps_of_step (genuine _ _ permits) (fixed _ _ permits) before keeps
        (holds.1 _).2 taken.step
    · subst performed
      exact Effect.keeps_of_step keeps taken.step

end Invariant

end Neuralbase.Consensus
