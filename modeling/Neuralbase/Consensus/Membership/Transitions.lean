import Neuralbase.Consensus.Membership

namespace Neuralbase.Consensus.ClusterMembership

open Neuralbase.Library

/-! What `validate` accepts and what each successful transition returns. -/

/-- The well-formedness `validate` checks. -/
structure Valid (m : ClusterMembership) : Prop where
  formatVersion : m.formatVersion = membershipFormatVersion
  generation : m.generation ≠ 0
  voters : m.voters.Nonempty
  votersLearners : Disjoint m.voters m.learners
  votersRemoved : Disjoint m.voters m.removed
  learnersRemoved : Disjoint m.learners m.removed
  joint : ∀ joint, m.joint = some joint →
    joint.oldVoters = m.voters ∧ joint.newVoters.Nonempty ∧
      Disjoint joint.newVoters m.removed ∧ Disjoint joint.newVoters m.learners

theorem validate_eq_ok {m : ClusterMembership} {accepted : Unit} : m.validate = .ok accepted ↔ m.Valid := by
  unfold validate
  simp only [guard_eq_ok]
  constructor
  · rintro ⟨version, generation, voters, learners, removed, joint⟩
    simp only [not_or, not_not] at version learners removed
    refine ⟨version, generation, Finset.nonempty_iff_ne_empty.mpr voters, learners, removed.1,
      removed.2, ?_⟩
    intro config present
    simp only [present, guard_eq_ok, pure_eq_ok] at joint
    obtain ⟨nonempty, same, tombstoned, learning, -⟩ := joint
    simp only [not_or, not_not] at nonempty same tombstoned
    refine ⟨same, Finset.nonempty_iff_ne_empty.mpr nonempty.2, tombstoned.2, ?_⟩
    rw [Finset.disjoint_left]
    intro id member learner
    exact learning ⟨id, Finset.mem_union_right _ member, learner⟩
  · intro valid
    refine ⟨not_not.mpr valid.formatVersion, valid.generation, valid.voters.ne_empty,
      not_not.mpr valid.votersLearners, ?_, ?_⟩
    · simp only [valid.votersRemoved, valid.learnersRemoved, not_true_eq_false, or_self,
        not_false_eq_true]
    · cases present : m.joint with
      | none => rfl
      | some config =>
        obtain ⟨same, nonempty, tombstoned, learning⟩ := valid.joint config present
        simp only [guard_eq_ok, pure_eq_ok, and_true]
        refine ⟨?_, not_not.mpr same, ?_, ?_⟩
        · simp only [same, valid.voters.ne_empty, nonempty.ne_empty, or_self, not_false_eq_true]
        · simp only [same, valid.votersRemoved, tombstoned, not_true_eq_false, or_self,
            not_false_eq_true]
        · rintro ⟨id, member, learner⟩
          rcases Finset.mem_union.mp member with old | new
          · rw [same] at old
            exact Finset.disjoint_left.mp valid.votersLearners old learner
          · exact Finset.disjoint_left.mp learning new learner

theorem requireStable_eq_ok {m : ClusterMembership} {accepted : Unit} :
    m.requireStable = .ok accepted ↔ m.Valid ∧ m.joint = none := by
  unfold requireStable
  simp only [bind_eq_ok, guard_eq_ok, pure_eq_ok, and_true, exists_const, validate_eq_ok,
    Option.isSome_iff_ne_none, ne_eq, not_not]

theorem nextGeneration_eq_ok {m : ClusterMembership} {generation : Nat} : m.nextGeneration = .ok generation ↔
      m.generation + 1 < 2 ^ 64 ∧ generation = m.generation + 1 := by
  unfold nextGeneration
  split <;> simp_all [eq_comm]

structure Advanced (m next : ClusterMembership) (index : Nat) : Prop where
  valid : next.Valid
  bounded : m.generation + 1 < 2 ^ 64
  generation : next.generation = m.generation + 1
  configIndex : next.configIndex = index

theorem addLearner_eq_ok {m next : ClusterMembership} {id : NodeId} {index : Nat}
    (added : m.addLearner id index = .ok next) :
    m.Valid ∧ m.joint = none ∧ id ∉ m.voters ∧ id ∉ m.learners ∧ id ∉ m.removed ∧
      Advanced m next index ∧ next.voters = m.voters ∧ next.learners = insert id m.learners ∧
      next.joint = none ∧ next.removed = m.removed := by
  simp only [addLearner, bind_eq_ok, guard_eq_ok, pure_eq_ok, requireStable_eq_ok,
    nextGeneration_eq_ok, validate_eq_ok, isRemoved, decide_eq_true_eq, not_or] at added
  obtain ⟨-, ⟨valid, stable⟩, fresh, ⟨notVoter, notLearner⟩, _, ⟨bounded, rfl⟩, -, nextValid, rfl⟩ :=
    added
  exact ⟨valid, stable, notVoter, notLearner, fresh, ⟨nextValid, bounded, rfl, rfl⟩, rfl, rfl,
    stable, rfl⟩

theorem beginPromotion_eq_ok {m next : ClusterMembership} {id : NodeId} {index : Nat}
    (promoted : m.beginPromotion id index = .ok next) :
    m.Valid ∧ m.joint = none ∧ id ∈ m.learners ∧ Advanced m next index ∧
      next.voters = m.voters ∧ next.learners = m.learners.erase id ∧
      next.joint = some { oldVoters := m.voters, newVoters := insert id m.voters } ∧
      next.removed = m.removed := by
  simp only [beginPromotion, bind_eq_ok, guard_eq_ok, pure_eq_ok, requireStable_eq_ok,
    nextGeneration_eq_ok, validate_eq_ok, not_not] at promoted
  obtain ⟨-, ⟨valid, stable⟩, learner, _, ⟨bounded, rfl⟩, -, nextValid, rfl⟩ := promoted
  exact ⟨valid, stable, learner, ⟨nextValid, bounded, rfl, rfl⟩, rfl, rfl, rfl, rfl⟩

theorem beginRemoval_eq_ok {m next : ClusterMembership} {id : NodeId} {index : Nat}
    (begun : m.beginRemoval id index = .ok next) :
    m.Valid ∧ m.joint = none ∧ Advanced m next index ∧ next.voters = m.voters ∧
      ((id ∈ m.learners ∧ next.learners = m.learners.erase id ∧ next.joint = none ∧
          next.removed = insert id m.removed) ∨
        (id ∉ m.learners ∧ id ∈ m.voters ∧ 1 < m.voters.card ∧ next.learners = m.learners ∧
          next.joint = some { oldVoters := m.voters, newVoters := m.voters.erase id } ∧
          next.removed = m.removed)) := by
  by_cases learner : id ∈ m.learners
  · simp only [beginRemoval, bind_eq_ok, pure_eq_ok, requireStable_eq_ok, learner, if_true,
      nextGeneration_eq_ok, validate_eq_ok] at begun
    obtain ⟨-, ⟨valid, stable⟩, _, ⟨bounded, rfl⟩, -, nextValid, rfl⟩ := begun
    exact ⟨valid, stable, ⟨nextValid, bounded, rfl, rfl⟩, rfl,
      .inl ⟨learner, rfl, stable, rfl⟩⟩
  · simp only [beginRemoval, bind_eq_ok, guard_eq_ok, pure_eq_ok, requireStable_eq_ok, learner,
      if_false, nextGeneration_eq_ok, validate_eq_ok, not_not, not_le] at begun
    obtain ⟨-, ⟨valid, stable⟩, voter, several, _, ⟨bounded, rfl⟩, -, nextValid, rfl⟩ := begun
    exact ⟨valid, stable, ⟨nextValid, bounded, rfl, rfl⟩, rfl,
      .inr ⟨learner, voter, several, rfl, rfl, rfl⟩⟩

theorem finalizeJoint_eq_ok {m next : ClusterMembership} {index : Nat} (finalized : m.finalizeJoint index = .ok next) :
    ∃ joint, m.joint = some joint ∧ Advanced m next index ∧ next.voters = joint.newVoters ∧
      next.learners = m.learners ∧ next.joint = none ∧
      next.removed = m.removed ∪ (joint.oldVoters \ joint.newVoters) := by
  cases present : m.joint with
  | none => simp [finalizeJoint, present] at finalized
  | some joint =>
    simp only [finalizeJoint, present, bind_eq_ok, pure_eq_ok, nextGeneration_eq_ok,
      validate_eq_ok] at finalized
    obtain ⟨_, ⟨bounded, rfl⟩, -, nextValid, rfl⟩ := finalized
    exact ⟨joint, rfl, ⟨nextValid, bounded, rfl, rfl⟩, rfl, rfl, rfl, rfl⟩

end Neuralbase.Consensus.ClusterMembership
