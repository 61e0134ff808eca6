import Neuralbase.Consensus.Membership.Quorum
import Mathlib

namespace Neuralbase.Consensus

/-! Sequences of successful membership transitions. -/

/-- Some sequence of successful transitions leads from `m` to `later`. -/
def MembershipReach : ClusterMembership → ClusterMembership → Prop :=
  Relation.ReflTransGen fun m next => ∃ index, MembershipStep m index next

/-- The same for sequences that take every transition at a log index above the
current `configIndex`.  Both callers in the source do: the effective-membership
fold and the committed apply skip entries at or below it. -/
def RisingReach : ClusterMembership → ClusterMembership → Prop :=
  Relation.TransGen fun m next => ∃ index, m.configIndex < index ∧ MembershipStep m index next

namespace ClusterMembership

variable {m : ClusterMembership}

def seen (m : ClusterMembership) : Finset NodeId :=
  m.voters ∪ m.learners ∪ m.removed ∪
    match m.joint with
    | some joint => joint.oldVoters ∪ joint.newVoters
    | none => ∅

theorem mem_seen {id : NodeId} : id ∈ m.seen ↔ id ∈ m.voters ∨ id ∈ m.learners ∨ id ∈ m.removed ∨
      ∃ joint, m.joint = some joint ∧ (id ∈ joint.oldVoters ∨ id ∈ joint.newVoters) := by
  unfold seen
  cases m.joint with
  | none => simp
  | some joint => simp

end ClusterMembership

open ClusterMembership

variable {m next later : ClusterMembership} {index : Nat}

theorem MembershipStep.advanced (step : MembershipStep m index next) : Advanced m next index := by
  cases step with
  | addLearner id added => exact (addLearner_eq_ok added).2.2.2.2.2.1
  | beginPromotion id promoted => exact (beginPromotion_eq_ok promoted).2.2.2.1
  | beginRemoval id begun => exact (beginRemoval_eq_ok begun).2.2.1
  | finalizeJoint finalized =>
    obtain ⟨_, _, advanced, _⟩ := finalizeJoint_eq_ok finalized
    exact advanced

theorem MembershipStep.removed_subset (step : MembershipStep m index next) : m.removed ⊆ next.removed := by
  cases step with
  | addLearner id added =>
    exact (addLearner_eq_ok added).2.2.2.2.2.2.2.2.2.symm.subset
  | beginPromotion id promoted =>
    exact (beginPromotion_eq_ok promoted).2.2.2.2.2.2.2.symm.subset
  | beginRemoval id begun =>
    obtain ⟨-, -, -, -, learner | voter⟩ := beginRemoval_eq_ok begun
    · rw [learner.2.2.2]
      exact Finset.subset_insert _ _
    · exact voter.2.2.2.2.2.symm.subset
  | finalizeJoint finalized =>
    obtain ⟨joint, -, -, -, -, -, removed⟩ := finalizeJoint_eq_ok finalized
    rw [removed]
    exact Finset.subset_union_left

theorem MembershipStep.seen_subset (valid : m.Valid) (step : MembershipStep m index next) : m.seen ⊆ next.seen := by
  intro id member
  rw [mem_seen] at member ⊢
  cases step with
  | addLearner added fresh =>
    obtain ⟨-, stable, -, -, -, -, voters, learners, -, removed⟩ := addLearner_eq_ok fresh
    simp only [stable, reduceCtorEq, false_and, exists_false, or_false] at member
    rw [voters, learners, removed]
    rcases member with voter | learner | tombstone
    · exact .inl voter
    · exact .inr (.inl (Finset.mem_insert_of_mem learner))
    · exact .inr (.inr (.inl tombstone))
  | beginPromotion promoted begun =>
    obtain ⟨-, stable, learning, -, voters, learners, joint, removed⟩ := beginPromotion_eq_ok begun
    simp only [stable, reduceCtorEq, false_and, exists_false, or_false] at member
    rw [voters, learners, removed, joint]
    rcases member with voter | learner | tombstone
    · exact .inl voter
    · by_cases same : id = promoted
      · exact .inr (.inr (.inr ⟨_, rfl, .inr (same ▸ Finset.mem_insert_self _ _)⟩))
      · exact .inr (.inl (Finset.mem_erase.mpr ⟨same, learner⟩))
    · exact .inr (.inr (.inl tombstone))
  | beginRemoval leaving begun =>
    obtain ⟨-, stable, -, voters, shape⟩ := beginRemoval_eq_ok begun
    simp only [stable, reduceCtorEq, false_and, exists_false, or_false] at member
    rcases shape with ⟨-, learners, -, removed⟩ | ⟨-, -, -, learners, -, removed⟩
    · rw [voters, learners, removed]
      rcases member with voter | learner | tombstone
      · exact .inl voter
      · by_cases same : id = leaving
        · exact .inr (.inr (.inl (same ▸ Finset.mem_insert_self _ _)))
        · exact .inr (.inl (Finset.mem_erase.mpr ⟨same, learner⟩))
      · exact .inr (.inr (.inl (Finset.mem_insert_of_mem tombstone)))
    · rw [voters, learners, removed]
      rcases member with voter | learner | tombstone
      · exact .inl voter
      · exact .inr (.inl learner)
      · exact .inr (.inr (.inl tombstone))
  | finalizeJoint finalized =>
    obtain ⟨joint, present, -, voters, learners, -, removed⟩ := finalizeJoint_eq_ok finalized
    have old := (valid.joint joint present).1
    have settled : id ∈ joint.oldVoters ∨ id ∈ joint.newVoters →
        id ∈ next.voters ∨ id ∈ next.removed := by
      intro jointVoter
      rw [voters, removed]
      by_cases new : id ∈ joint.newVoters
      · exact .inl new
      · exact .inr (Finset.mem_union_right _ (Finset.mem_sdiff.mpr
          ⟨jointVoter.resolve_right new, new⟩))
    rcases member with voter | learner | tombstone | ⟨config, same, jointVoter⟩
    · rcases settled (.inl (old ▸ voter)) with stays | gone
      · exact .inl stays
      · exact .inr (.inr (.inl gone))
    · exact .inr (.inl (learners ▸ learner))
    · exact .inr (.inr (.inl (removed ▸ Finset.mem_union_left _ tombstone)))
    · obtain rfl : config = joint := by simpa [present] using same.symm
      rcases settled jointVoter with stays | gone
      · exact .inl stays
      · exact .inr (.inr (.inl gone))

theorem MembershipReach.valid (valid : m.Valid) (reached : MembershipReach m later) : later.Valid := by
  induction reached with
  | refl => exact valid
  | tail _ last _ =>
    obtain ⟨index, step⟩ := last
    exact step.advanced.valid

theorem MembershipReach.grows (valid : m.Valid) (reached : MembershipReach m later) :
    m.removed ⊆ later.removed ∧ m.seen ⊆ later.seen := by
  induction reached with
  | refl => exact ⟨subset_rfl, subset_rfl⟩
  | tail before last ih =>
    obtain ⟨index, step⟩ := last
    exact ⟨ih.1.trans step.removed_subset,
      ih.2.trans (step.seen_subset (MembershipReach.valid valid before))⟩

theorem RisingReach.configIndex_lt (rising : RisingReach m later) : m.configIndex < later.configIndex := by
  induction rising with
  | single last =>
    obtain ⟨index, above, step⟩ := last
    rw [step.advanced.configIndex]
    exact above
  | tail _ last ih =>
    obtain ⟨index, above, step⟩ := last
    rw [step.advanced.configIndex]
    exact ih.trans above

/-- Safety of every sequence of successful transitions from a valid membership.
A transition stores the log index it is given, so `configIndex` rises along
exactly the sequences whose indexes do. -/
theorem membership_history_safe (genesis earlier : ClusterMembership)
    (valid : genesis.validate = .ok ()) (reached : MembershipReach genesis earlier) :
    earlier.validate = .ok () ∧ earlier.voters.Nonempty ∧ (∀ index next, MembershipStep earlier index next →
      next.generation = earlier.generation + 1 ∧ next.configIndex = index) ∧
    (∀ later, RisingReach earlier later → earlier.configIndex < later.configIndex) ∧
    ∀ later, MembershipReach earlier later → earlier.removed ⊆ later.removed ∧ earlier.seen ⊆ later.seen ∧
      ∀ id ∈ earlier.removed, id ∉ later.voters ∧ id ∉ later.learners ∧ later.isVoter id = false := by
  have earlierValid := MembershipReach.valid (validate_eq_ok.mp valid) reached
  refine ⟨validate_eq_ok.mpr earlierValid, earlierValid.voters, ?_, ?_, ?_⟩
  · intro index next step
    exact ⟨step.advanced.generation, step.advanced.configIndex⟩
  · intro later rising
    exact RisingReach.configIndex_lt rising
  · intro later future
    have laterValid := MembershipReach.valid earlierValid future
    obtain ⟨removed, seen⟩ := MembershipReach.grows earlierValid future
    refine ⟨removed, seen, ?_⟩
    intro id tombstone
    have gone := removed tombstone
    exact ⟨fun voter => Finset.disjoint_left.mp laterValid.votersRemoved voter gone,
      fun learner => Finset.disjoint_left.mp laterValid.learnersRemoved learner gone,
      laterValid.not_voter (.inr gone)⟩

/-- `n4` is added and promoted and `n3` removed; adding `n5` afterwards leaves `n3` a tombstone. -/
theorem membership_history_safe_replacement : ∃ earlier later, MembershipReach (bootstrap "n1" ["n2", "n3"]) earlier ∧
      MembershipStep earlier 6 later ∧ earlier.removed = {"n3"} ∧
      later.generation = earlier.generation + 1 ∧ earlier.configIndex < later.configIndex ∧
      "n3" ∉ later.voters ∧ "n3" ∉ later.learners ∧ later.isVoter "n3" = false := by
  let three := bootstrap "n1" ["n2", "n3"]
  let added := { three with generation := 2, configIndex := 1, learners := {"n4"} }
  let promoting := { three with
    generation := 3, configIndex := 2, joint := some ⟨{"n1", "n2", "n3"}, {"n4", "n1", "n2", "n3"}⟩ }
  let promoted := { three with generation := 4, configIndex := 3, voters := {"n4", "n1", "n2", "n3"} }
  let removing := { promoted with
    generation := 5, configIndex := 4, joint := some ⟨{"n4", "n1", "n2", "n3"}, {"n4", "n1", "n2"}⟩ }
  let replaced := { three with generation := 6, configIndex := 5, voters := {"n4", "n1", "n2"}, removed := {"n3"} }
  let later := { replaced with generation := 7, configIndex := 6, learners := {"n5"} }
  have first : MembershipStep three 1 added := .addLearner "n4" (by decide)
  have second : MembershipStep added 2 promoting := .beginPromotion "n4" (by decide)
  have third : MembershipStep promoting 3 promoted := .finalizeJoint (by decide)
  have fourth : MembershipStep promoted 4 removing := .beginRemoval "n3" (by decide)
  have fifth : MembershipStep removing 5 replaced := .finalizeJoint (by decide)
  have last : MembershipStep replaced 6 later := .addLearner "n5" (by decide)
  have reached : MembershipReach three replaced :=
    ((((Relation.ReflTransGen.single ⟨1, first⟩).tail ⟨2, second⟩).tail ⟨3, third⟩).tail ⟨4, fourth⟩).tail ⟨5, fifth⟩
  obtain ⟨-, -, stepped, rises, kept⟩ := membership_history_safe three replaced (by decide) reached
  have tombstone := (kept later (.single ⟨6, last⟩)).2.2 "n3" (by decide)
  exact ⟨replaced, later, reached, last, rfl, (stepped 6 later last).1,
    rises later (.single ⟨6, by decide, last⟩), tombstone⟩

/-- The transitions themselves do not order the indexes they are given: adding
`n4` at index 7 and then `n5` at index 3 succeeds. -/
theorem configIndex_may_fall : ¬ ∀ (genesis earlier : ClusterMembership), genesis.validate = .ok () →
      MembershipReach genesis earlier → ∀ index next, MembershipStep earlier index next →
        earlier.configIndex < next.configIndex := by
  intro rises
  let three := bootstrap "n1" ["n2", "n3"]
  let four := { three with generation := 2, configIndex := 7, learners := {"n4"} }
  let five := { three with generation := 3, configIndex := 3, learners := {"n5", "n4"} }
  have first : MembershipStep three 7 four := .addLearner "n4" (by decide)
  have second : MembershipStep four 3 five := .addLearner "n5" (by decide)
  have risen := rises three four (by decide) (.single ⟨7, first⟩) 3 five second
  exact absurd risen (by decide)

end Neuralbase.Consensus
