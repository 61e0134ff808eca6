import Neuralbase.Consensus.Steps.Local

namespace Neuralbase.Consensus

open Neuralbase.Library

/-! Votes.  A vote counts once it is saved, and the saved votes are what survives
a crash; everything said about elections goes back to them. -/

/-- The message a node receives from the network.  Requests of an administrator
come from outside the cluster. -/
def Work.delivered : Work → Option (NodeId × RaftMessage)
  | .event (.message _ (.membershipChangeCmd _)) => none
  | .event (.message _ (.leaderTransfer _)) => none
  | .event (.message sender message) => some (sender, message)
  | _ => none

def Work.appendEntries : Work → Option AppendEntriesArgs
  | .event (.message _ (.appendEntries args)) => some args
  | _ => none

def Work.installSnapshot : Work → Option InstallSnapshotArgs
  | .event (.message _ (.installSnapshot args)) => some args
  | _ => none

def Work.compaction : Work → Option Bytes
  | .event (.clientCommand _ payload) =>
    if startsWith payload compactLogTag then some payload else none
  | _ => none

def Genuine (c : Cluster) (a : Action) : Prop :=
  ∀ delivery ∈ a.work.delivered, c.Sent delivery.1 a.node delivery.2

theorem Genuine.sent {c : Cluster} {a : Action} {sender : NodeId} {message : RaftMessage}
    (genuine : Genuine c a) (received : a.work = .event (.message sender message))
    (network : Work.delivered (.event (.message sender message)) = some (sender, message)) :
    c.Sent sender a.node message :=
  genuine (sender, message) (by rw [received]; exact network)

def Store.ballot (store : Store) : Nat × Option NodeId :=
  (store.active.map fun saved => (saved.1.currentTerm, saved.1.votedFor)).getD (0, none)

/-- `voter` has saved its vote for `candidate` in `term`. -/
def Cluster.Voted (c : Cluster) (voter : NodeId) (term : Nat) (candidate : NodeId) : Prop :=
  ∃ ps data, (voter, .save ps data) ∈ c.history ∧ ps.currentTerm = term ∧
    ps.votedFor = some candidate

/-- A granted vote of `term`. -/
def grantedVote (term : Nat) : RaftMessage :=
  .requestVoteReply { term, voteGranted := true }

section NodeStep

variable {ctx : Context} {n next : RaftNode} {effect : Option Effect}

theorem NodeStep.id_eq (step : NodeStep ctx n effect next) : next.id = n.id := by
  cases step with
  | propose | accept | install | compact | applyMembership | recoverInstall =>
    rename_i folded
    obtain ⟨_, _, _, _, rfl⟩ := RaftNode.recompute_eq folded
    rfl
  | _ => rfl

theorem NodeStep.persistence_eq (step : NodeStep ctx n effect next) : next.persistence = n.persistence := by
  cases step with
  | propose | accept | install | compact | applyMembership | recoverInstall =>
    rename_i folded
    obtain ⟨_, _, _, _, rfl⟩ := RaftNode.recompute_eq folded
    rfl
  | _ => rfl

theorem NodeStep.ballot_saved (step : NodeStep ctx n effect next) (attached : n.persistence = true) :
    effect = some (.save next.ps next.snapshotData) ∨ (∀ ps data, effect ≠ some (.save ps data)) ∧
        next.ps.currentTerm = n.ps.currentTerm ∧ next.ps.votedFor = n.ps.votedFor := by
  have writes : ∀ {m : RaftNode}, m.persistence = n.persistence →
      m.saved = some (.save m.ps m.snapshotData) := by
    intro m same
    simp [RaftNode.saved, same, attached]
  cases step with
  | stepDown | campaign | grantVote | appendBarrier | resave => exact .inl (writes rfl)
  | propose | accept | install | compact | applyMembership | recoverInstall =>
    rename_i folded
    obtain ⟨_, _, _, _, rfl⟩ := RaftNode.recompute_eq folded
    exact .inl (writes rfl)
  | notify effect harmless =>
    refine .inr ⟨fun ps data saved => ?_, rfl, rfl⟩
    cases saved
    exact harmless
  | _ => exact .inr ⟨fun _ _ saved => (by cases saved), rfl, rfl⟩

theorem DiskStep.ballot_rises {ps : PersistentState} {data : Bytes} (disk : DiskStep ctx n ps data) :
    n.ps.currentTerm ≤ ps.currentTerm ∧ (ps.currentTerm = n.ps.currentTerm →
      n.ps.votedFor = none ∨ ps.votedFor = n.ps.votedFor) := by
  cases disk with
  | ballot term vote reached kept => exact ⟨reached, kept⟩
  | _ => exact ⟨le_rfl, fun _ => .inr rfl⟩

theorem NodeStep.votes (step : NodeStep ctx n effect next) :
    next.role = .follower ∨
    (n.role ≠ .follower ∧ next.ps.currentTerm = n.ps.currentTerm ∧
      next.votesReceived = n.votesReceived) ∨
    (next = n.campaigning ∧ n.effectiveMembership.isVoter n.id = true) ∨
    ∃ sender, ctx.Receives sender (grantedVote n.ps.currentTerm) ∧ n.role = .candidate ∧
      n.effectiveMembership.isVoter sender = true ∧
      next = { n with votesReceived := insert sender n.votesReceived } := by
  have idle : ∀ {m : RaftNode}, m.role = n.role → m.ps.currentTerm = n.ps.currentTerm →
      m.votesReceived = n.votesReceived → m.role = .follower ∨ (n.role ≠ .follower ∧
        m.ps.currentTerm = n.ps.currentTerm ∧ m.votesReceived = n.votesReceived) := by
    intro m role term votes
    by_cases follows : n.role = .follower
    · exact .inl (role.trans follows)
    · exact .inr ⟨follows, term, votes⟩
  cases step with
  | stepDown | retire => exact .inl rfl
  | campaign _ voter => exact .inr (.inr (.inl ⟨rfl, voter⟩))
  | countVote sender received candidate voter =>
    exact .inr (.inr (.inr ⟨sender, received, candidate, voter, rfl⟩))
  | takeLead candidate => exact .inr (.inl ⟨by simp [candidate], rfl, rfl⟩)
  | propose | accept | install | compact | applyMembership | recoverInstall =>
    rename_i folded
    obtain ⟨_, _, _, _, rfl⟩ := RaftNode.recompute_eq folded
    exact (idle rfl rfl rfl).imp_right .inl
  | _ => exact (idle rfl rfl rfl).imp_right .inl

theorem NodeStep.sends_requestVote {peer : NodeId} {args : RequestVoteArgs}
    (step : NodeStep ctx n effect next) (sent : effect = some (.send peer (.requestVote args))) :
    args = n.voteRequest ∧ n.role = .candidate := by
  generalize message : RaftMessage.requestVote args = request at sent
  cases (step.sends sent).2 with
  | harmless _ harmless => subst message; exact harmless.elim
  | callVote candidate => cases message; exact ⟨rfl, candidate⟩
  | heartbeat =>
    rcases heartbeatFor_cases n peer with ⟨args, beat⟩ | ⟨args, beat⟩ <;> rw [beat] at message <;>
      cases message
  | _ => cases message

theorem NodeStep.sends_grantedVote {peer : NodeId} {term : Nat}
    (step : NodeStep ctx n effect next) (sent : effect = some (.send peer (grantedVote term))) :
    term = n.ps.currentTerm ∧ next = n ∧ ∃ args, ctx.Receives peer (.requestVote args) ∧
      n.ps.votedFor = some args.candidateId := by
  obtain ⟨same, sends⟩ := step.sends sent
  generalize message : grantedVote term = vote at sends
  cases sends with
  | harmless _ harmless =>
    subst message
    exact absurd harmless (by simp [Effect.Harmless, grantedVote])
  | sendVote args received _ voted => cases message; exact ⟨rfl, same, args, received, voted⟩
  | heartbeat =>
    rcases heartbeatFor_cases n peer with ⟨args, beat⟩ | ⟨args, beat⟩ <;> rw [beat] at message <;>
      cases message
  | _ => cases message

end NodeStep

namespace Cluster

variable {c : Cluster} {i : NodeId} {next : RaftNode} {effect : Option Effect}

theorem voted_after {voter candidate : NodeId} {term : Nat} :
    (c.after i effect next).Voted voter term candidate ↔ c.Voted voter term candidate ∨
      voter = i ∧ ∃ ps data, effect = some (.save ps data) ∧ ps.currentTerm = term ∧ ps.votedFor = some candidate := by
  simp only [Voted, mem_after_history]
  constructor
  · rintro ⟨ps, data, earlier | ⟨rfl, done⟩, reached, vote⟩
    · exact .inl ⟨ps, data, earlier, reached, vote⟩
    · exact .inr ⟨rfl, ps, data, done, reached, vote⟩
  · rintro (⟨ps, data, earlier, reached, vote⟩ | ⟨rfl, ps, data, done, reached, vote⟩)
    · exact ⟨ps, data, .inl earlier, reached, vote⟩
    · exact ⟨ps, data, .inr ⟨rfl, done⟩, reached, vote⟩

theorem Voted.mono {later : Cluster} {voter candidate : NodeId} {term : Nat}
    (voted : c.Voted voter term candidate) (grows : c.history ⊆ later.history) : later.Voted voter term candidate := by
  obtain ⟨ps, data, saved, reached, vote⟩ := voted
  exact ⟨ps, data, grows saved, reached, vote⟩

end Cluster

theorem Store.ballot_perform {store : Store} {effect : Effect}
    (other : ∀ ps data, effect ≠ .save ps data) : (store.perform effect).ballot = store.ballot := by
  cases effect with
  | save ps data => exact absurd rfl (other ps data)
  | _ => rfl

structure Ballots (c : Cluster) : Prop where
  id : ∀ i n, c.node i = some n → n.id = i
  attached : ∀ i n, c.node i = some n → n.persistence = true
  /-- A running node's term and vote are the durable ones. -/
  durable : ∀ i n, c.node i = some n →
    (c.store i).ballot = (n.ps.currentTerm, n.ps.votedFor)
  /-- The durable vote was saved. -/
  recorded : ∀ i candidate, (c.store i).ballot.2 = some candidate →
    c.Voted i (c.store i).ballot.1 candidate
  /-- Votes belong to past terms, or are still the durable one. -/
  bounded : ∀ i term candidate, c.Voted i term candidate → term ≤ (c.store i).ballot.1 ∧
    (term = (c.store i).ballot.1 → (c.store i).ballot.2 = some candidate)
  /-- One vote in a term. -/
  unique : ∀ i term candidate other, c.Voted i term candidate → c.Voted i term other →
    candidate = other
  /-- A vote request names its sender. -/
  requests : ∀ i peer args, c.Sent i peer (.requestVote args) → args.candidateId = i
  /-- A granted vote was saved before it was sent. -/
  grants : ∀ i peer term, c.Sent i peer (grantedVote term) → c.Voted i term peer
  /-- A candidate counts its own vote and votes it was sent in its term. -/
  counted : ∀ i n, c.node i = some n → n.role ≠ .follower → ∀ voter ∈ n.votesReceived,
    c.Voted voter n.ps.currentTerm i ∧
      (voter = i ∨ c.Sent voter i (grantedVote n.ps.currentTerm))

section Step

variable {codec : Codec} {start c : Cluster} {a : Action} {origin n next : RaftNode}
  {effect : Option Effect}

theorem Cluster.sent_after {i sender peer : NodeId} {message : RaftMessage} :
    (c.after i effect next).Sent sender peer message ↔ c.Sent sender peer message ∨
      (sender = i ∧ effect = some (.send peer message)) :=
  Cluster.mem_after_history

theorem ClusterStep.sent (taken : ClusterStep codec start a origin c n effect next)
    {sender peer : NodeId} {message : RaftMessage} (sent : start.Sent sender peer message) :
    c.Sent sender peer message :=
  taken.past.subset sent

theorem ClusterStep.ballot (taken : ClusterStep codec start a origin c n effect next) (holds : Ballots c) :
    ((c.after a.node effect next).store a.node).ballot = (next.ps.currentTerm, next.ps.votedFor) := by
  rw [Cluster.after_store_self]
  rcases taken.step.ballot_saved (holds.attached _ _ taken.node) with rfl | ⟨other, term, vote⟩
  · rfl
  · rw [term, vote, ← holds.durable _ _ taken.node]
    cases effect with
    | none => rfl
    | some done => exact Store.ballot_perform fun ps data same => other ps data (by rw [same])

theorem ClusterStep.voted (taken : ClusterStep codec start a origin c n effect next)
    {voter candidate : NodeId} {term : Nat} (voted : (c.after a.node effect next).Voted voter term candidate) :
    c.Voted voter term candidate ∨ voter = a.node ∧ next.ps.currentTerm = term ∧ next.ps.votedFor = some candidate := by
  rcases Cluster.voted_after.mp voted with earlier | ⟨rfl, ps, data, saved, reached, vote⟩
  · exact .inl earlier
  · obtain ⟨rfl, -⟩ := taken.step.saves saved
    exact .inr ⟨rfl, reached, vote⟩

theorem ClusterStep.vote_kept (taken : ClusterStep codec start a origin c n effect next)
    (holds : Ballots c) {term : Nat} {candidate : NodeId}
    (voted : c.Voted a.node term candidate) : term ≤ next.ps.currentTerm ∧
      (term = next.ps.currentTerm → next.ps.votedFor = some candidate) := by
  obtain ⟨rises, kept⟩ := taken.step.disk.ballot_rises
  have old := holds.durable _ _ taken.node
  obtain ⟨reached, vote⟩ := holds.bounded _ _ _ voted
  simp only [old] at reached vote
  refine ⟨reached.trans rises, fun same => ?_⟩
  have current : term = n.ps.currentTerm := by omega
  rcases kept (same ▸ current) with free | keeps
  · rw [vote current] at free
    cases free
  · rw [keeps]
    exact vote current

theorem Ballots.step (genuine : Genuine start a) (before : Ballots start) (holds : Ballots c)
    (taken : ClusterStep codec start a origin c n effect next) : Ballots (c.after a.node effect next) := by
  have ballot := taken.ballot holds
  have named := holds.id _ _ taken.node
  have current : ∀ candidate, n.ps.votedFor = some candidate →
      c.Voted a.node n.ps.currentTerm candidate := by
    intro candidate vote
    have recorded := holds.recorded a.node candidate
    rw [holds.durable _ _ taken.node] at recorded
    exact recorded vote
  have grows : c.history ⊆ (c.after a.node effect next).history := by
    rw [Cluster.after_history]
    exact List.subset_append_left _ _
  refine
    { id := fun i m running => ?_
      attached := fun i m running => ?_
      durable := fun i m running => ?_
      recorded := fun i candidate vote => ?_
      bounded := fun i term candidate voted => ?_
      unique := fun i term candidate other voted votedOther => ?_
      requests := fun i peer args sent => ?_
      grants := fun i peer term sent => ?_
      counted := fun i m running active voter inside => ?_ }
  · rcases Cluster.after_running running with ⟨rfl, rfl⟩ | ⟨_, running⟩
    · exact taken.step.id_eq.trans named
    · exact holds.id i m running
  · rcases Cluster.after_running running with ⟨rfl, rfl⟩ | ⟨_, running⟩
    · exact taken.step.persistence_eq.trans (holds.attached _ _ taken.node)
    · exact holds.attached i m running
  · rcases Cluster.after_running running with ⟨rfl, rfl⟩ | ⟨other, running⟩
    · exact ballot
    · rw [Cluster.after_store_other other]
      exact holds.durable i m running
  · by_cases same : i = a.node
    · subst same
      rw [ballot] at vote ⊢
      rcases taken.step.ballot_saved (holds.attached _ _ taken.node) with saved | ⟨_, term, kept⟩
      · exact ⟨_, _, Cluster.mem_after_history.mpr (.inr ⟨rfl, saved⟩), rfl, vote⟩
      · rw [term]
        exact (current candidate (kept ▸ vote)).mono grows
    · rw [Cluster.after_store_other same] at vote ⊢
      exact (holds.recorded i candidate vote).mono grows
  · by_cases same : i = a.node
    · subst same
      rw [ballot]
      rcases taken.voted voted with earlier | ⟨_, rfl, vote⟩
      · exact taken.vote_kept holds earlier
      · exact ⟨le_rfl, fun _ => vote⟩
    · rw [Cluster.after_store_other same]
      rcases taken.voted voted with earlier | ⟨self, _⟩
      · exact holds.bounded i term candidate earlier
      · exact absurd self same
  · rcases taken.voted voted with earlier | ⟨rfl, reached, vote⟩ <;>
      rcases taken.voted votedOther with earlierOther | ⟨self, reachedOther, voteOther⟩
    · exact holds.unique i term candidate other earlier earlierOther
    · have kept := (taken.vote_kept holds (self ▸ earlier)).2 reachedOther.symm
      exact Option.some.inj (kept.symm.trans voteOther)
    · have kept := (taken.vote_kept holds earlierOther).2 reached.symm
      exact Option.some.inj (vote.symm.trans kept)
    · exact Option.some.inj (vote.symm.trans voteOther)
  · rcases Cluster.sent_after.mp sent with earlier | ⟨rfl, now⟩
    · exact holds.requests i peer args earlier
    · rw [(taken.step.sends_requestVote now).1]
      exact named
  · rcases Cluster.sent_after.mp sent with earlier | ⟨rfl, now⟩
    · exact (holds.grants i peer term earlier).mono grows
    · obtain ⟨rfl, _, args, received, vote⟩ := taken.step.sends_grantedVote now
      have requested := genuine.sent received rfl
      rw [before.requests peer a.node args requested] at vote
      exact (current peer vote).mono grows
  · rcases Cluster.after_running running with ⟨rfl, rfl⟩ | ⟨_, running⟩
    · rcases taken.step.votes with follows | ⟨busy, term, votes⟩ | ⟨rfl, _⟩ |
          ⟨sender, received, candidate, _, rfl⟩
      · exact absurd follows active
      · obtain ⟨voted, heard⟩ := holds.counted _ _ taken.node busy voter (votes ▸ inside)
        rw [term]
        exact ⟨voted.mono grows, heard.imp_right fun sent => grows sent⟩
      · have self : voter = a.node := by
          simpa [RaftNode.campaigning, named] using inside
        subst self
        rcases taken.step.ballot_saved (holds.attached _ _ taken.node) with saved | ⟨_, term, _⟩
        · refine ⟨⟨_, _, Cluster.mem_after_history.mpr (.inr ⟨rfl, saved⟩), rfl, ?_⟩, .inl rfl⟩
          simp [RaftNode.campaigning, named]
        · simp [RaftNode.campaigning] at term
      · have heard := genuine.sent received rfl
        rcases Finset.mem_insert.mp inside with rfl | earlier
        · exact ⟨(holds.grants _ _ _ (taken.sent heard)).mono grows,
            .inr (grows (taken.sent heard))⟩
        · obtain ⟨voted, before⟩ := holds.counted _ _ taken.node (by simp [candidate]) voter earlier
          exact ⟨voted.mono grows, before.imp_right fun sent => grows sent⟩
    · obtain ⟨voted, heard⟩ := holds.counted i m running active voter inside
      exact ⟨voted.mono grows, heard.imp_right fun sent => grows sent⟩

theorem adopted_ballot {config : BootConfig} {i : NodeId} {store : Store}
    (adopted : Adopted codec config i store n) : n.id = i ∧ n.persistence = true ∧
      store.ballot = (n.ps.currentTerm, n.ps.votedFor) ∧ n.role = .follower := by
  obtain ⟨created, migrated, _, fresh, _, loads⟩ := RaftNode.adopted_loads adopted
  obtain ⟨effective, rfl⟩ := loads.eq
  refine ⟨fresh.id, rfl, ?_, fresh.role⟩
  have same : (created.migrate migrated (created.durable store).1).currentTerm =
        (created.durable store).1.currentTerm ∧
      (created.migrate migrated (created.durable store).1).votedFor =
        (created.durable store).1.votedFor := by
    unfold RaftNode.migrate
    split <;> exact ⟨rfl, rfl⟩
  rw [same.1, same.2]
  cases active : store.active with
  | none => simp [Store.ballot, RaftNode.durable, active, fresh.currentTerm, fresh.votedFor]
  | some saved => simp [Store.ballot, RaftNode.durable, active]

theorem ballots_inductive {allowed : Cluster → Action → Prop}
    (genuine : ∀ c a, allowed c a → Genuine c a) : Inductive codec allowed Ballots where
  initial := by
    constructor <;> simp [Cluster.initial, Cluster.Voted, Cluster.Sent, Store.ballot, Store.empty]
  crash := by
    intro c i holds
    have still : ∀ j m, (c.setNode i none).node j = some m → c.node j = some m := by
      intro j m running
      rcases Cluster.setNode_running running with ⟨_, gone⟩ | ⟨_, running⟩
      · cases gone
      · exact running
    exact { holds with
      id := fun j m running => holds.id j m (still j m running)
      attached := fun j m running => holds.attached j m (still j m running)
      durable := fun j m running => holds.durable j m (still j m running)
      counted := fun j m running => holds.counted j m (still j m running) }
  submit := fun _ holds _ _ => { holds with }
  adopt := by
    intro c a config m _ holds work begins
    rw [Begins, work] at begins
    obtain ⟨named, attached, ballot, follows⟩ := adopted_ballot begins.2
    refine { holds with
      id := fun j k running => ?_
      attached := fun j k running => ?_
      durable := fun j k running => ?_
      counted := fun j k running active => ?_ }
    · rcases Cluster.setNode_running running with ⟨rfl, ⟨⟩⟩ | ⟨_, running⟩
      · exact named
      · exact holds.id j k running
    · rcases Cluster.setNode_running running with ⟨rfl, ⟨⟩⟩ | ⟨_, running⟩
      · exact attached
      · exact holds.attached j k running
    · rcases Cluster.setNode_running running with ⟨rfl, ⟨⟩⟩ | ⟨_, running⟩
      · exact ballot
      · exact holds.durable j k running
    · rcases Cluster.setNode_running running with ⟨rfl, ⟨⟩⟩ | ⟨_, running⟩
      · exact absurd follows active
      · exact holds.counted j k running active
  step := fun permits before holds taken =>
    Ballots.step (genuine _ _ permits) before holds taken

end Step

end Neuralbase.Consensus
