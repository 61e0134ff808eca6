import Neuralbase.Consensus.Schedule

namespace Neuralbase.Consensus

open Neuralbase.Library ClusterMembership

/-! Election safety: a term has at most one leader. -/

section NodeStep

variable {ctx : Context} {n next : RaftNode} {effect : Option Effect}

theorem NodeStep.leads (step : NodeStep ctx n effect next) (leads : next.role = .leader) :
    (n.role = .leader ∧ next.ps.currentTerm = n.ps.currentTerm ∧ next.votesReceived = n.votesReceived) ∨
    (n.role = .candidate ∧ next = n.leading ∧ effect = none ∧ n.effectiveMembership.isVoter n.id = true ∧
      n.effectiveMembership.hasVoteQuorum n.votesReceived = true) := by
  cases step with
  | stepDown | retire | campaign => cases leads
  | takeLead candidate voter quorum => exact .inr ⟨candidate, rfl, rfl, voter, quorum⟩
  | countVote sender received candidate =>
    rw [show n.role = _ from leads] at candidate
    cases candidate
  | propose | accept | install | compact | applyMembership | recoverInstall =>
    rename_i folded
    obtain ⟨_, _, _, _, rfl⟩ := RaftNode.recompute_eq folded
    exact .inl ⟨leads, rfl, rfl⟩
  | _ => exact .inl ⟨leads, rfl, rfl⟩

end NodeStep

/-- In a cluster of fixed voters, whoever campaigns counts votes of voters only,
and whoever leads has counted a majority. -/
def Majorities (voters : Finset NodeId) (c : Cluster) : Prop :=
  ∀ i n, c.node i = some n → n.role ≠ .follower → n.votesReceived ⊆ voters ∧
    (n.role = .leader → majority voters ≤ votesIn voters n.votesReceived)

section Invariant

variable {codec : Codec} {voters : Finset NodeId} {start c : Cluster} {a : Action}
  {origin n next : RaftNode} {effect : Option Effect}

theorem Majorities.step (keeps : VotersKept codec voters c) (holds : Majorities voters c)
    (taken : ClusterStep codec start a origin c n effect next) : Majorities voters (c.after a.node effect next) := by
  intro i m running active
  rcases Cluster.after_running running with ⟨rfl, rfl⟩ | ⟨_, running⟩
  · have fixed := ((keeps.1 _).1 _ taken.node).effective
    have counted : m.votesReceived ⊆ voters := by
      rcases taken.step.votes with follows | ⟨busy, _, votes⟩ | ⟨rfl, voter⟩ |
        ⟨sender, _, candidate, voter, rfl⟩
      · exact absurd follows active
      · rw [votes]
        exact (holds _ _ taken.node busy).1
      · exact Finset.singleton_subset_iff.mpr ((fixed.isVoter _).mp voter)
      · refine Finset.insert_subset ((fixed.isVoter _).mp voter) ?_
        exact (holds _ _ taken.node (by simp [candidate])).1
    refine ⟨counted, fun leads => ?_⟩
    rcases taken.step.leads leads with ⟨led, _, votes⟩ | ⟨_, rfl, _, _, quorum⟩
    · rw [votes]
      exact (holds _ _ taken.node (by simp [led])).2 led
    · exact (fixed.hasVoteQuorum _).mp quorum
  · exact holds i m running active

theorem Majorities.setNode {i : NodeId} {node : Option RaftNode} (holds : Majorities voters c)
    (idle : ∀ m, node = some m → m.role = .follower) : Majorities voters (c.setNode i node) := by
  intro j m running active
  rcases Cluster.setNode_running running with ⟨rfl, present⟩ | ⟨_, running⟩
  · exact absurd (idle m present) active
  · exact holds j m running active

/-- A majority has voted for `candidate` in `term`. -/
def Cluster.Won (voters : Finset NodeId) (c : Cluster) (candidate : NodeId) (term : Nat) : Prop :=
  ∃ votes, majority voters ≤ votesIn voters votes ∧
    ∀ voter ∈ votes, c.Voted voter term candidate

theorem Cluster.Won.mono {later : Cluster} {candidate : NodeId} {term : Nat}
    (won : c.Won voters candidate term) (grows : c.history ⊆ later.history) : later.Won voters candidate term := by
  obtain ⟨votes, enough, voted⟩ := won
  exact ⟨votes, enough, fun voter inside => (voted voter inside).mono grows⟩

theorem Cluster.Won.unique {candidate other : NodeId} {term : Nat} (ballots : Ballots c)
    (won : c.Won voters candidate term) (wonOther : c.Won voters other term) : candidate = other := by
  obtain ⟨votes, enough, voted⟩ := won
  obtain ⟨votesOther, enoughOther, votedOther⟩ := wonOther
  obtain ⟨voter, _, left, right⟩ := majorities_intersect enough enoughOther
  exact ballots.unique voter term candidate other (voted voter left) (votedOther voter right)

theorem leader_won {i : NodeId} (ballots : Ballots c) (majorities : Majorities voters c)
    (running : c.node i = some n) (leads : n.role = .leader) : c.Won voters i n.ps.currentTerm := by
  have active : n.role ≠ .follower := by simp [leads]
  exact ⟨n.votesReceived, (majorities i n running active).2 leads,
    fun voter inside => (ballots.counted i n running active voter inside).1⟩

end Invariant

/-- Runs of a cluster whose voters are fixed, over a network that may lose,
duplicate, delay and reorder messages. -/
def FixedCluster (codec : Codec) (voters : Finset NodeId) (c : Cluster) (a : Action) : Prop :=
  Genuine c a ∧ FixedVoters codec voters a

instance (codec : Codec) (voters : Finset NodeId) : DecidableRel (FixedCluster codec voters) :=
  fun _ _ => inferInstanceAs (Decidable (_ ∧ _))

def Elections (codec : Codec) (voters : Finset NodeId) (c : Cluster) : Prop :=
  (Ballots c ∧ VotersKept codec voters c) ∧ Majorities voters c

theorem elections_inductive {codec : Codec} {voters : Finset NodeId} {allowed : Cluster → Action → Prop}
    (fixed : ∀ c a, allowed c a → FixedCluster codec voters c a) :
    Inductive codec allowed (Elections codec voters) := by
  refine Inductive.strengthen (votersKept_inductive (fun c a permits => (fixed c a permits).1)
    fun c a permits => (fixed c a permits).2) ?_ ?_ ?_ ?_ ?_
  · intro i n running
    cases running
  · exact fun i _ holds => holds.setNode fun m gone => by cases gone
  · exact fun payload _ holds _ _ => holds
  · intro c a config n _ _ holds work begins
    rw [Begins, work] at begins
    refine holds.setNode fun m same => ?_
    cases same
    exact (adopted_ballot begins.2).2.2.2
  · exact fun _ _ _ first holds _ taken => holds.step first.2 taken

/-- Over any run, crashes and restarts included: a term has one leader; a voter
saves one vote in a term, and grants only votes it saved; and every vote a
candidate or leader has counted is its own or was granted to it in its current
term by one of the voters. -/
theorem election_safety {codec : Codec} {voters : Finset NodeId} {c : Cluster}
    {past : List Cluster} (run : Run codec (FixedCluster codec voters) c past) :
    (∀ before ∈ past, ∀ after ∈ past, ∀ i j n m, before.node i = some n → after.node j = some m →
      n.role = .leader → m.role = .leader → n.ps.currentTerm = m.ps.currentTerm → i = j) ∧
    (∀ voter term candidate other, c.Voted voter term candidate → c.Voted voter term other → candidate = other) ∧
    (∀ voter candidate term, c.Sent voter candidate (grantedVote term) → c.Voted voter term candidate) ∧
    (∀ i n, c.node i = some n → n.role ≠ .follower → ∀ voter ∈ n.votesReceived,
      voter ∈ voters ∧ (voter = i ∨ c.Sent voter i (grantedVote n.ps.currentTerm))) := by
  have kept : Inductive codec (FixedCluster codec voters) (Elections codec voters) :=
    elections_inductive fun _ _ permits => permits
  have now := run.invariant kept
  have won : ∀ state ∈ past, ∀ i n, state.node i = some n → n.role = .leader →
      c.Won voters i n.ps.currentTerm := by
    intro state inside i n running leads
    obtain ⟨⟨states, reached⟩, grows⟩ := run.earlier inside
    have holds := reached.invariant kept
    exact (leader_won holds.1.1 holds.2 running leads).mono grows.subset
  refine ⟨?_, now.1.1.unique, now.1.1.grants, ?_⟩
  · intro before inside after insideOther i j n m running runningOther leads leadsOther same
    have wonOther := won after insideOther j m runningOther leadsOther
    rw [← same] at wonOther
    exact (won before inside i n running leads).unique now.1.1 wonOther
  · intro i n running active voter counted
    exact ⟨(now.2 i n running active).1 counted,
      (now.1.1.counted i n running active voter counted).2⟩

/-- A run in which `"A"` is elected: nobody else ever leads term 1. -/
theorem election_safety_three : ∃ c past, Run plainCodec (FixedCluster plainCodec {"A", "B", "C"}) c past ∧
    (∃ n, c.node "A" = some n ∧ n.role = .leader ∧ n.ps.currentTerm = 1) ∧
    ∀ state ∈ past, ∀ j m, state.node j = some m → m.role = .leader → m.ps.currentTerm = 1 → j = "A" := by
  obtain ⟨c, past, run, found⟩ := exists_run plainCodec (FixedCluster plainCodec {"A", "B", "C"})
    electA (fun c _ => (c.node "A").any fun n => n.role = .leader && n.ps.currentTerm = 1)
    (by decide +kernel)
  cases running : c.node "A" with
  | none => simp [running] at found
  | some n =>
    simp only [running, Option.any_some, Bool.and_eq_true, decide_eq_true_eq] at found
    refine ⟨c, past, run, ⟨n, running, found.1, found.2⟩, ?_⟩
    intro state inside j m runningOther leads term
    exact (election_safety run).1 state inside c run.mem j "A" m n runningOther running leads
      found.1 (term.trans found.2.symm)

section Votes

variable {codec : Codec} {voters : Finset NodeId} {c before : Cluster} {past : List Cluster}

theorem Ballots.kept {voter candidate : NodeId} {term : Nat} (ballots : Ballots c) (voted : before.Voted voter term candidate)
    (grows : before.history ⊆ c.history) :
    (c.store voter).ballot = (term, some candidate) ∨ term < (c.store voter).ballot.1 := by
  obtain ⟨ps, data, written, saved⟩ := voted
  obtain ⟨within, same⟩ := ballots.bounded voter term candidate ⟨ps, data, grows written, saved⟩
  exact within.eq_or_lt.imp_left fun equal => Prod.ext equal.symm (same equal)

/-- A running node's term and vote are those in its storage, and a vote that was granted or
recorded in any state of the run is never taken back: its voter still has it, or a later term. -/
theorem votes_never_revoked (run : Run codec Genuine c past) :
    (∀ i n, c.node i = some n → (c.store i).ballot = (n.ps.currentTerm, n.ps.votedFor)) ∧
    ∀ before ∈ past, ∀ voter term candidate,
      before.Sent voter candidate (grantedVote term) ∨ (before.store voter).ballot = (term, some candidate) →
      (c.store voter).ballot = (term, some candidate) ∨ term < (c.store voter).ballot.1 := by
  have kept : Inductive codec Genuine Ballots := ballots_inductive fun _ _ permits => permits
  have now := run.invariant kept
  refine ⟨now.durable, fun before inside voter term candidate held => ?_⟩
  obtain ⟨⟨states, reached⟩, grows⟩ := run.earlier inside
  have earlier := reached.invariant kept
  refine now.kept ?_ grows.subset
  rcases held with granted | recorded
  · exact earlier.grants voter candidate term granted
  · have saved := earlier.recorded voter candidate (by rw [recorded])
    rwa [recorded] at saved

/-- `"B"` votes for `"A"`, dies and starts again. -/
theorem votes_never_revoked_restart : ∃ c past, Run plainCodec Genuine c past ∧
    ((c.store "B").ballot = (1, some "A") ∨ 1 < (c.store "B").ballot.1) := by
  obtain ⟨c, past, run, found⟩ := exists_run plainCodec Genuine
    (electA ++ [.crash "B", founder "B" ["A", "C"]])
    (fun c _ => (c.node "B").isSome && c.sent "B" "A" (grantedVote 1)) (by decide +kernel)
  have granted := Cluster.sent_iff.mp (Bool.and_eq_true_iff.mp found).2
  exact ⟨c, past, run, (votes_never_revoked run).2 c run.mem "B" 1 "A" (.inl granted)⟩

/-- Whoever led a term keeps a majority of the voters: each of them still has its vote for the
leader in its storage, or has gone on to a later term. -/
theorem leaders_keep_majority (run : Run codec (FixedCluster codec voters) c past) :
    ∀ before ∈ past, ∀ i n, before.node i = some n → n.role = .leader →
      ∃ votes, majority voters ≤ votesIn voters votes ∧ ∀ voter ∈ votes,
        (c.store voter).ballot = (n.ps.currentTerm, some i) ∨ n.ps.currentTerm < (c.store voter).ballot.1 := by
  intro before inside i n running leads
  have kept : Inductive codec (FixedCluster codec voters) (Elections codec voters) :=
    elections_inductive fun _ _ permits => permits
  obtain ⟨⟨states, reached⟩, grows⟩ := run.earlier inside
  have earlier := reached.invariant kept
  obtain ⟨votes, enough, voted⟩ := leader_won earlier.1.1 earlier.2 running leads
  exact ⟨votes, enough, fun voter counted => (run.invariant kept).1.1.kept (voted voter counted) grows.subset⟩

theorem leaders_keep_majority_three : ∃ c past, Run plainCodec (FixedCluster plainCodec {"A", "B", "C"}) c past ∧
    ∃ n votes, c.node "A" = some n ∧ 2 ≤ votesIn {"A", "B", "C"} votes ∧ ∀ voter ∈ votes,
      (c.store voter).ballot = (n.ps.currentTerm, some "A") ∨ n.ps.currentTerm < (c.store voter).ballot.1 := by
  obtain ⟨c, past, run, found⟩ := exists_run plainCodec (FixedCluster plainCodec {"A", "B", "C"}) electA
    (fun c _ => (c.node "A").any fun n => n.role = .leader) (by decide +kernel)
  obtain ⟨n, running, leads⟩ := (Option.any_eq_true _ _).mp found
  obtain ⟨votes, enough, kept⟩ := leaders_keep_majority run c run.mem "A" n running (of_decide_eq_true leads)
  exact ⟨c, past, run, n, votes, running, enough, kept⟩

end Votes

end Neuralbase.Consensus
