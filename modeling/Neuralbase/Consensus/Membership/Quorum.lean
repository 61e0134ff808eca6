import Neuralbase.Consensus.Membership.Transitions
import Neuralbase.Library.Majority

namespace Neuralbase.Consensus

open Neuralbase.Library

/-- `next` is the result of one successful membership transition at log index `index`. -/
inductive MembershipStep (m : ClusterMembership) (index : Nat) (next : ClusterMembership) : Prop where
  | addLearner (id : NodeId) (added : m.addLearner id index = .ok next)
  | beginPromotion (id : NodeId) (promoted : m.beginPromotion id index = .ok next)
  | beginRemoval (id : NodeId) (begun : m.beginRemoval id index = .ok next)
  | finalizeJoint (finalized : m.finalizeJoint index = .ok next)

theorem MembershipStep.of_transition {base next : ClusterMembership} {change : MembershipChange}
    {index : Nat} (step : transitionMembership base change index = .ok next) : MembershipStep base index next := by
  cases change with
  | addNode id => exact .addLearner id step
  | addLearner id => exact .addLearner id step
  | promoteLearner id => exact .beginPromotion id step
  | removeNode id => exact .beginRemoval id step
  | finalizeJoint => exact .finalizeJoint step

namespace ClusterMembership

variable {m next : ClusterMembership} {left right : Finset NodeId}

/-- A voter set all of whose members vote in `m` and a majority of which every
accepted set must contain. -/
def Decides (m : ClusterMembership) (voters : Finset NodeId) : Prop :=
  (∀ id ∈ voters, m.isVoter id = true) ∧
    ∀ votes, m.hasVoteQuorum votes = true → majority voters ≤ votesIn voters votes

theorem decides_voters (stable : m.joint = none) : m.Decides m.voters := by
  constructor
  · intro id member
    simpa [isVoter, stable] using member
  · intro votes accepted
    simpa [hasVoteQuorum, stable] using accepted

theorem decides_oldVoters {joint : JointConfig} (present : m.joint = some joint) : m.Decides joint.oldVoters := by
  constructor
  · intro id member
    simp [isVoter, present, member]
  · intro votes accepted
    simp only [hasVoteQuorum, present, ge_iff_le, Bool.and_eq_true, decide_eq_true_eq] at accepted
    exact accepted.1

theorem decides_newVoters {joint : JointConfig} (present : m.joint = some joint) : m.Decides joint.newVoters := by
  constructor
  · intro id member
    simp [isVoter, present, member]
  · intro votes accepted
    simp only [hasVoteQuorum, present, ge_iff_le, Bool.and_eq_true, decide_eq_true_eq] at accepted
    exact accepted.2

theorem Decides.intersect {voters : Finset NodeId} (here : m.Decides voters)
    (there : next.Decides voters) (accepted : m.hasVoteQuorum left = true)
    (acceptedNext : next.hasVoteQuorum right = true) :
    ∃ id ∈ left ∩ right, m.isVoter id = true ∧ next.isVoter id = true := by
  obtain ⟨id, voter, inLeft, inRight⟩ :=
    majorities_intersect (here.2 left accepted) (there.2 right acceptedNext)
  exact ⟨id, Finset.mem_inter.mpr ⟨inLeft, inRight⟩, here.1 id voter, there.1 id voter⟩

theorem exists_decides (m : ClusterMembership) : ∃ voters, m.Decides voters := by
  cases present : m.joint with
  | none => exact ⟨_, decides_voters present⟩
  | some joint => exact ⟨_, decides_oldVoters present⟩

end ClusterMembership

open ClusterMembership

/-- Entering a joint configuration keeps the old majority rule; leaving it keeps
the new one; a learner change keeps the only one. -/
theorem MembershipStep.exists_decides {m next : ClusterMembership} {index : Nat} (step : MembershipStep m index next) :
    ∃ voters, m.Decides voters ∧ next.Decides voters := by
  cases step with
  | addLearner id added =>
    obtain ⟨-, stable, -, -, -, -, voters, -, nextStable, -⟩ := addLearner_eq_ok added
    exact ⟨m.voters, decides_voters stable, voters ▸ decides_voters nextStable⟩
  | beginPromotion id promoted =>
    obtain ⟨-, stable, -, -, -, -, joint, -⟩ := beginPromotion_eq_ok promoted
    exact ⟨m.voters, decides_voters stable, decides_oldVoters joint⟩
  | beginRemoval id begun =>
    obtain ⟨-, stable, -, voters, learner | voter⟩ := beginRemoval_eq_ok begun
    · exact ⟨m.voters, decides_voters stable, voters ▸ decides_voters learner.2.2.1⟩
    · exact ⟨m.voters, decides_voters stable, decides_oldVoters voter.2.2.2.2.1⟩
  | finalizeJoint finalized =>
    obtain ⟨joint, present, -, voters, -, stable, -⟩ := finalizeJoint_eq_ok finalized
    exact ⟨joint.newVoters, decides_newVoters present, voters ▸ decides_voters stable⟩

theorem MembershipStep.valid {m next : ClusterMembership} {index : Nat}
    (step : MembershipStep m index next) : next.Valid := by
  cases step with
  | addLearner id added => exact (addLearner_eq_ok added).2.2.2.2.2.1.valid
  | beginPromotion id promoted => exact (beginPromotion_eq_ok promoted).2.2.2.1.valid
  | beginRemoval id begun => exact (beginRemoval_eq_ok begun).2.2.1.valid
  | finalizeJoint finalized =>
    obtain ⟨_, _, advanced, _⟩ := finalizeJoint_eq_ok finalized
    exact advanced.valid

namespace ClusterMembership

variable {m : ClusterMembership} {left right : Finset NodeId}

theorem hasVoteQuorum_congr (same : ∀ id, m.isVoter id = true → (id ∈ left ↔ id ∈ right)) :
    m.hasVoteQuorum left = m.hasVoteQuorum right := by
  have agree : ∀ voters : Finset NodeId, (∀ id ∈ voters, m.isVoter id = true) →
      votesIn voters left = votesIn voters right := by
    intro voters voting
    unfold votesIn
    congr 1
    ext id
    simp only [Finset.mem_inter]
    exact and_congr_right fun member => same id (voting id member)
  unfold hasVoteQuorum
  cases present : m.joint with
  | none => simp only [agree m.voters (decides_voters present).1]
  | some joint =>
    simp only [agree joint.oldVoters (decides_oldVoters present).1,
      agree joint.newVoters (decides_newVoters present).1]

theorem Valid.not_voter (valid : m.Valid) {id : NodeId} (outside : id ∈ m.learners ∨ id ∈ m.removed) :
    m.isVoter id = false := by
  have stable : id ∉ m.voters := by
    intro voter
    rcases outside with learner | removed
    · exact Finset.disjoint_left.mp valid.votersLearners voter learner
    · exact Finset.disjoint_left.mp valid.votersRemoved voter removed
  cases present : m.joint with
  | none => simpa [isVoter, present] using stable
  | some joint =>
    obtain ⟨same, -, removedNew, learnersNew⟩ := valid.joint joint present
    have new : id ∉ joint.newVoters := by
      intro voter
      rcases outside with learner | removed
      · exact Finset.disjoint_left.mp learnersNew voter learner
      · exact Finset.disjoint_left.mp removedNew voter removed
    simp [isVoter, present, same, stable, new]

/-- Whether a vote set is accepted does not depend on the ids in `extra`. -/
def Ignores (m : ClusterMembership) (extra : Finset NodeId) : Prop :=
  ∀ votes, m.hasVoteQuorum (votes ∪ extra) = m.hasVoteQuorum votes ∧
    m.hasVoteQuorum (votes \ extra) = m.hasVoteQuorum votes

theorem Valid.ignores (valid : m.Valid) {extra : Finset NodeId}
    (outside : ∀ id ∈ extra, id ∈ m.learners ∨ id ∈ m.removed) : m.Ignores extra := by
  have absent : ∀ id, m.isVoter id = true → id ∉ extra := by
    intro id voter member
    simp [valid.not_voter (outside id member)] at voter
  intro votes
  constructor
  · apply hasVoteQuorum_congr
    intro id voter
    simp [absent id voter]
  · apply hasVoteQuorum_congr
    intro id voter
    simp [absent id voter]

/-- Quorums intersect inside one membership and across every single transition,
and only voters count. -/
theorem quorums_intersect (m : ClusterMembership) (valid : m.validate = .ok ()) :
    (∀ index next, MembershipStep m index next → ∀ left right,
      m.hasVoteQuorum left = true → next.hasVoteQuorum right = true →
        ∃ id ∈ left ∩ right, m.isVoter id = true ∧ next.isVoter id = true) ∧
    (∀ left right, m.hasVoteQuorum left = true → m.hasVoteQuorum right = true →
      ∃ id ∈ left ∩ right, m.isVoter id = true) ∧
    (∀ extra : Finset NodeId, (∀ id ∈ extra, id ∈ m.learners ∨ id ∈ m.removed) → m.Ignores extra) ∧
    ∀ index next, MembershipStep m index next →
      ∀ extra : Finset NodeId, (∀ id ∈ extra, id ∈ next.learners ∨ id ∈ next.removed) → next.Ignores extra := by
  refine ⟨?_, ?_, fun extra outside => (validate_eq_ok.mp valid).ignores outside, ?_⟩
  · intro index next step left right accepted acceptedNext
    obtain ⟨voters, here, there⟩ := step.exists_decides
    exact here.intersect there accepted acceptedNext
  · intro left right acceptedLeft acceptedRight
    obtain ⟨voters, decides⟩ := m.exists_decides
    obtain ⟨id, member, voter, -⟩ := decides.intersect decides acceptedLeft acceptedRight
    exact ⟨id, member, voter⟩
  · intro index next step extra outside
    exact step.valid.ignores outside

/-- A three-voter cluster that starts to remove `n3`: the majorities `{n1, n2}`
before and `{n2, n1}` of the joint configuration meet. -/
theorem quorums_intersect_three : ∃ next, MembershipStep (bootstrap "n1" ["n2", "n3"]) 1 next ∧
      ∃ id ∈ ({"n1", "n2"} : Finset NodeId) ∩ {"n2", "n1"},
        (bootstrap "n1" ["n2", "n3"]).isVoter id = true ∧ next.isVoter id = true := by
  let removing := { bootstrap "n1" ["n2", "n3"] with
    generation := 2, configIndex := 1, joint := some ⟨{"n1", "n2", "n3"}, {"n1", "n2"}⟩ }
  have begun : MembershipStep (bootstrap "n1" ["n2", "n3"]) 1 removing := .beginRemoval "n3" (by decide)
  exact ⟨removing, begun, (quorums_intersect (bootstrap "n1" ["n2", "n3"]) (by decide)).1 1 removing begun
    {"n1", "n2"} {"n2", "n1"} (by decide) (by decide)⟩

end ClusterMembership

end Neuralbase.Consensus
