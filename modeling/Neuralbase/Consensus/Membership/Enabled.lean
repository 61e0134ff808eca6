import Neuralbase.Consensus.Membership.Transitions

namespace Neuralbase.Consensus

open Neuralbase.Library

/-! When a membership transition succeeds, and what carrying it through leaves. -/

/-- A change carried through: a joint configuration is finalized at a later index. -/
def carryThrough (m : ClusterMembership) (change : MembershipChange) (index finalIndex : Nat) :
    Except String ClusterMembership := do
  let next ← transitionMembership m change index
  if next.isJoint then next.finalizeJoint finalIndex else pure next

namespace ClusterMembership

variable {m : ClusterMembership} {id : NodeId} {index : Nat}

theorem exists_addLearner (index : Nat) (valid : m.Valid) (stable : m.joint = none) (voter : id ∉ m.voters)
    (learner : id ∉ m.learners) (removed : id ∉ m.removed) (bounded : m.generation + 1 < 2 ^ 64) :
    ∃ next, m.addLearner id index = .ok next := by
  have nextValid : Valid { m with
      generation := m.generation + 1, configIndex := index, learners := insert id m.learners } :=
    { valid with
      generation := Nat.succ_ne_zero _
      votersLearners := Finset.disjoint_insert_right.mpr ⟨voter, valid.votersLearners⟩
      learnersRemoved := Finset.disjoint_insert_left.mpr ⟨removed, valid.learnersRemoved⟩
      joint := by simp [stable] }
  simp only [addLearner, bind_eq_ok, guard_eq_ok, pure_eq_ok, requireStable_eq_ok,
    nextGeneration_eq_ok, validate_eq_ok, isRemoved, decide_eq_true_eq, not_or]
  exact ⟨_, (), ⟨valid, stable⟩, removed, ⟨voter, learner⟩, _, ⟨bounded, rfl⟩, (), nextValid, rfl⟩

theorem exists_beginPromotion (index : Nat) (valid : m.Valid) (stable : m.joint = none) (learner : id ∈ m.learners)
    (bounded : m.generation + 1 < 2 ^ 64) : ∃ next, m.beginPromotion id index = .ok next := by
  have nextValid : Valid { m with
      generation := m.generation + 1, configIndex := index
      learners := m.learners.erase id
      joint := some { oldVoters := m.voters, newVoters := insert id m.voters } } :=
    { valid with
      generation := Nat.succ_ne_zero _
      votersLearners := valid.votersLearners.mono_right (Finset.erase_subset _ _)
      learnersRemoved := valid.learnersRemoved.mono_left (Finset.erase_subset _ _)
      joint := by
        rintro joint ⟨⟩
        refine ⟨rfl, Finset.insert_nonempty _ _, ?_, ?_⟩
        · exact Finset.disjoint_insert_left.mpr
            ⟨Finset.disjoint_left.mp valid.learnersRemoved learner, valid.votersRemoved⟩
        · exact Finset.disjoint_insert_left.mpr ⟨Finset.notMem_erase _ _,
            valid.votersLearners.mono_right (Finset.erase_subset _ _)⟩ }
  simp only [beginPromotion, bind_eq_ok, guard_eq_ok, pure_eq_ok, requireStable_eq_ok,
    nextGeneration_eq_ok, validate_eq_ok, not_not]
  exact ⟨_, (), ⟨valid, stable⟩, learner, _, ⟨bounded, rfl⟩, (), nextValid, rfl⟩

theorem exists_beginRemoval (index : Nat) (valid : m.Valid) (stable : m.joint = none)
    (member : id ∈ m.learners ∨ id ∈ m.voters ∧ 1 < m.voters.card)
    (bounded : m.generation + 1 < 2 ^ 64) : ∃ next, m.beginRemoval id index = .ok next := by
  by_cases learner : id ∈ m.learners
  · have nextValid : Valid { m with
        generation := m.generation + 1, configIndex := index
        learners := m.learners.erase id, removed := insert id m.removed } :=
      { valid with
        generation := Nat.succ_ne_zero _
        votersLearners := valid.votersLearners.mono_right (Finset.erase_subset _ _)
        votersRemoved := Finset.disjoint_insert_right.mpr
          ⟨Finset.disjoint_right.mp valid.votersLearners learner, valid.votersRemoved⟩
        learnersRemoved := Finset.disjoint_insert_right.mpr ⟨Finset.notMem_erase _ _,
          valid.learnersRemoved.mono_left (Finset.erase_subset _ _)⟩
        joint := by simp [stable] }
    simp only [beginRemoval, bind_eq_ok, pure_eq_ok, requireStable_eq_ok, learner, if_true,
      nextGeneration_eq_ok, validate_eq_ok]
    exact ⟨_, (), ⟨valid, stable⟩, _, ⟨bounded, rfl⟩, (), nextValid, rfl⟩
  · obtain ⟨voter, several⟩ := member.resolve_left learner
    have nextValid : Valid { m with
        generation := m.generation + 1, configIndex := index
        joint := some { oldVoters := m.voters, newVoters := m.voters.erase id } } :=
      { valid with
        generation := Nat.succ_ne_zero _
        joint := by
          rintro joint ⟨⟩
          refine ⟨rfl, ?_, valid.votersRemoved.mono_left (Finset.erase_subset _ _),
            valid.votersLearners.mono_left (Finset.erase_subset _ _)⟩
          rw [← Finset.card_pos, Finset.card_erase_of_mem voter]
          omega }
    simp only [beginRemoval, bind_eq_ok, guard_eq_ok, pure_eq_ok, requireStable_eq_ok, learner,
      if_false, nextGeneration_eq_ok, validate_eq_ok, not_not, not_le]
    exact ⟨_, (), ⟨valid, stable⟩, voter, several, _, ⟨bounded, rfl⟩, (), nextValid, rfl⟩

theorem exists_finalizeJoint (index : Nat) {joint : JointConfig} (valid : m.Valid) (present : m.joint = some joint)
    (bounded : m.generation + 1 < 2 ^ 64) : ∃ next, m.finalizeJoint index = .ok next := by
  obtain ⟨old, nonempty, removed, learners⟩ := valid.joint joint present
  have nextValid : Valid { m with
      generation := m.generation + 1, configIndex := index
      voters := joint.newVoters
      removed := m.removed ∪ (joint.oldVoters \ joint.newVoters)
      joint := none } :=
    { valid with
      generation := Nat.succ_ne_zero _
      voters := nonempty
      votersLearners := learners
      votersRemoved := Finset.disjoint_union_right.mpr ⟨removed, Finset.disjoint_sdiff⟩
      learnersRemoved := Finset.disjoint_union_right.mpr ⟨valid.learnersRemoved,
        (old ▸ valid.votersLearners.symm).mono_right Finset.sdiff_subset⟩
      joint := by simp }
  simp only [finalizeJoint, present, bind_eq_ok, pure_eq_ok, nextGeneration_eq_ok, validate_eq_ok]
  exact ⟨_, _, ⟨bounded, rfl⟩, (), nextValid, rfl⟩

end ClusterMembership

section CarryThrough

open ClusterMembership

variable {m next : ClusterMembership} {id : NodeId} {index finalIndex : Nat}

/-- `next` is a stable membership with these members, a step or two after `m`. -/
structure Carried (m next : ClusterMembership) (index finalIndex : Nat)
    (voters learners removed : Finset NodeId) : Prop where
  valid : next.Valid
  stable : next.joint = none
  voters : next.voters = voters
  learners : next.learners = learners
  removed : next.removed = removed
  newer : m.generation < next.generation
  generation : next.generation ≤ m.generation + 2
  configIndex : next.configIndex = index ∨ next.configIndex = finalIndex

theorem carryThrough_stable {change : MembershipChange}
    (begun : transitionMembership m change index = .ok next) (stable : next.joint = none) :
    carryThrough m change index finalIndex = .ok next := by
  simp [carryThrough, begun, isJoint, stable, bind, Except.bind, pure, Except.pure]

theorem carryThrough_joint {change : MembershipChange} {joint : JointConfig} {last : ClusterMembership}
    (begun : transitionMembership m change index = .ok next) (present : next.joint = some joint)
    (finalized : next.finalizeJoint finalIndex = .ok last) : carryThrough m change index finalIndex = .ok last := by
  simp [carryThrough, begun, isJoint, present, finalized, bind, Except.bind]

theorem carried_addLearner (carried : carryThrough m (.addLearner id) index finalIndex = .ok next) :
    Carried m next index finalIndex m.voters (insert id m.learners) m.removed := by
  obtain ⟨first, begun, rest⟩ := bind_eq_ok.mp carried
  obtain ⟨-, -, -, -, -, advanced, voters, learners, stable, removed⟩ := addLearner_eq_ok begun
  simp only [isJoint, stable, Option.isSome_none, Bool.false_eq_true, if_false, pure_eq_ok] at rest
  subst rest
  exact ⟨advanced.valid, stable, voters, learners, removed, by rw [advanced.generation]; omega,
    by rw [advanced.generation]; omega, .inl advanced.configIndex⟩

/-- Finalizing the joint configuration that `first` entered. -/
theorem carried_finalizeJoint {first : ClusterMembership} {joint : JointConfig}
    (advanced : Advanced m first index) (present : first.joint = some joint)
    (finalized : first.finalizeJoint finalIndex = .ok next) :
    Carried m next index finalIndex joint.newVoters first.learners
      (first.removed ∪ (joint.oldVoters \ joint.newVoters)) := by
  obtain ⟨config, same, last, voters, learners, stable, removed⟩ := finalizeJoint_eq_ok finalized
  obtain rfl : config = joint := by simpa [present] using same.symm
  have newer := advanced.generation
  have newest := last.generation
  exact ⟨last.valid, stable, voters, learners, removed, by omega, by omega, .inr last.configIndex⟩

theorem carried_promoteLearner (carried : carryThrough m (.promoteLearner id) index finalIndex = .ok next) :
    Carried m next index finalIndex (insert id m.voters) (m.learners.erase id) m.removed := by
  obtain ⟨first, begun, rest⟩ := bind_eq_ok.mp carried
  obtain ⟨-, -, -, advanced, -, learners, joint, removed⟩ := beginPromotion_eq_ok begun
  simp only [isJoint, joint, Option.isSome_some, if_true] at rest
  have last := carried_finalizeJoint advanced joint rest
  rw [learners, removed, Finset.sdiff_eq_empty_iff_subset.mpr (Finset.subset_insert _ _),
    Finset.union_empty] at last
  exact last

theorem carried_removeNode (carried : carryThrough m (.removeNode id) index finalIndex = .ok next) :
    Carried m next index finalIndex (m.voters.erase id) (m.learners.erase id) (insert id m.removed) := by
  obtain ⟨first, begun, rest⟩ := bind_eq_ok.mp carried
  obtain ⟨valid, -, advanced, voters, learner | voter⟩ := beginRemoval_eq_ok begun
  · obtain ⟨learner, learners, stable, removed⟩ := learner
    simp only [isJoint, stable, Option.isSome_none, Bool.false_eq_true, if_false, pure_eq_ok] at rest
    subst rest
    have outside : id ∉ m.voters := Finset.disjoint_right.mp valid.votersLearners learner
    exact ⟨advanced.valid, stable, by rw [voters, Finset.erase_eq_of_notMem outside], learners, removed,
      by rw [advanced.generation]; omega, by rw [advanced.generation]; omega, .inl advanced.configIndex⟩
  · obtain ⟨learner, voter, -, learners, joint, removed⟩ := voter
    simp only [isJoint, joint, Option.isSome_some, if_true] at rest
    have last := carried_finalizeJoint advanced joint rest
    have tombstone : m.removed ∪ (m.voters \ m.voters.erase id) = insert id m.removed := by
      rw [Finset.sdiff_erase voter, Finset.sdiff_self, Finset.union_comm, Finset.insert_union,
        Finset.empty_union]
    rw [learners, removed, tombstone, ← Finset.erase_eq_of_notMem learner] at last
    exact last

theorem exists_carryThrough_addLearner (index finalIndex : Nat) (valid : m.Valid) (stable : m.joint = none)
    (voter : id ∉ m.voters) (learner : id ∉ m.learners) (removed : id ∉ m.removed)
    (bounded : m.generation + 2 < 2 ^ 64) : ∃ next, carryThrough m (.addLearner id) index finalIndex = .ok next := by
  obtain ⟨next, begun⟩ := exists_addLearner index valid stable voter learner removed
    (by omega)
  obtain ⟨-, -, -, -, -, -, -, -, settled, -⟩ := addLearner_eq_ok begun
  exact ⟨next, carryThrough_stable begun settled⟩

theorem exists_carryThrough_promoteLearner (index finalIndex : Nat) (valid : m.Valid) (stable : m.joint = none)
    (learner : id ∈ m.learners) (bounded : m.generation + 2 < 2 ^ 64) :
    ∃ next, carryThrough m (.promoteLearner id) index finalIndex = .ok next := by
  obtain ⟨first, begun⟩ := exists_beginPromotion index valid stable learner (by omega)
  obtain ⟨-, -, -, advanced, -, -, joint, -⟩ := beginPromotion_eq_ok begun
  obtain ⟨next, finalized⟩ := exists_finalizeJoint finalIndex advanced.valid joint
    (by rw [advanced.generation]; omega)
  exact ⟨next, carryThrough_joint begun joint finalized⟩

theorem exists_carryThrough_removeNode (index finalIndex : Nat) (valid : m.Valid) (stable : m.joint = none)
    (member : id ∈ m.learners ∨ id ∈ m.voters ∧ 1 < m.voters.card) (bounded : m.generation + 2 < 2 ^ 64) :
    ∃ next, carryThrough m (.removeNode id) index finalIndex = .ok next := by
  obtain ⟨first, begun⟩ := exists_beginRemoval index valid stable member (by omega)
  obtain ⟨-, -, advanced, -, learner | voter⟩ := beginRemoval_eq_ok begun
  · exact ⟨first, carryThrough_stable begun learner.2.2.1⟩
  · obtain ⟨-, -, -, -, joint, -⟩ := voter
    obtain ⟨next, finalized⟩ := exists_finalizeJoint finalIndex advanced.valid joint
      (by rw [advanced.generation]; omega)
    exact ⟨next, carryThrough_joint begun joint finalized⟩

end CarryThrough

end Neuralbase.Consensus
