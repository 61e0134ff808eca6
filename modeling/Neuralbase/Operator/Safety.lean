import Neuralbase.Operator
import Neuralbase.Consensus.Membership.Enabled
import Neuralbase.Consensus.Membership.Quorum

namespace Neuralbase.Operator

open Neuralbase.Library Neuralbase.Consensus Neuralbase.Consensus.ClusterMembership

/-! What a plan rests on: `reconcile` acts only with authority, and each action comes
with everything the branches before it have excluded. -/

variable {d : DesiredTopology} {o : Observation} {plan : Plan} {action : Action} {id : NodeId}

structure Authorized (d : DesiredTopology) (o : Observation) : Prop where
  authority : o.authorityIndex ≠ 0
  term : o.term ≠ 0
  leader : o.leader ∈ o.committed.voters
  configIndex : o.committed.configIndex ≤ o.authorityIndex
  settled : o.transitionPending = false
  stable : o.committed.joint = none
  agrees : conflictingProcess d o = false
  managed : ¬ unmanagedMember d o
  untombstoned : Disjoint d.voters o.committed.removed
  quorum : majority o.committed.voters ≤ votesIn o.committed.voters o.ready

/-- An action that is not `blocked`, with the reasons for it. -/
inductive Planned (d : DesiredTopology) (o : Observation) : Action → Prop where
  | restartVoter (id : NodeId) (desired : id ∈ d.voters) (voter : id ∈ o.committed.voters)
      (absent : o.processes.get id = none) : Planned d o (.restartMember id)
  | restartLearner (id : NodeId) (desired : id ∈ d.voters) (voter : id ∉ o.committed.voters)
      (learner : id ∈ o.committed.learners) (absent : o.processes.get id = none) :
      Planned d o (.restartMember id)
  | createLearner (id : NodeId) (desired : id ∈ d.voters) (voter : id ∉ o.committed.voters)
      (learner : id ∉ o.committed.learners) (absent : o.processes.get id = none) :
      Planned d o (.createLearner id)
  | addDesired (id : NodeId) (desired : id ∈ d.voters) (voter : id ∉ o.committed.voters)
      (learner : id ∉ o.committed.learners) (present : o.hasProcess id) : Planned d o (.addLearner id)
  | promoteLearner (id : NodeId) (desired : id ∈ d.voters) (voter : id ∉ o.committed.voters)
      (learner : id ∈ o.committed.learners) (ready : id ∈ o.ready)
      (caughtUp : o.authorityIndex ≤ o.matchedAt id)
      (quorum : majority (insert id o.committed.voters) ≤
        votesIn (insert id o.committed.voters) o.ready) : Planned d o (.promoteLearner id)
  | transferLeadership (target : NodeId) (satisfied : d.voters ⊆ o.committed.voters)
      (first : (ascending (o.committed.replicationTargets \ d.voters)).head? = some o.leader)
      (survives : target ∈ o.committed.voters) (other : target ≠ o.leader)
      (caughtUp : o.authorityIndex ≤ o.matchedAt target) : Planned d o (.transferLeadership target)
  | removeVoter (id : NodeId) (satisfied : d.voters ⊆ o.committed.voters)
      (first : (ascending (o.committed.replicationTargets \ d.voters)).head? = some id)
      (voter : id ∈ o.committed.voters) (follower : id ≠ o.leader)
      (floor : d.minimumVoters ≤ (o.committed.voters.erase id).card)
      (quorum : majority (o.committed.voters.erase id) ≤
        votesIn (o.committed.voters.erase id) o.ready) : Planned d o (.removeMember id)
  | removeLearner (id : NodeId) (satisfied : d.voters ⊆ o.committed.voters)
      (first : (ascending (o.committed.replicationTargets \ d.voters)).head? = some id)
      (voter : id ∉ o.committed.voters) : Planned d o (.removeMember id)
  | stopRemoved (id : NodeId) (removed : id ∈ o.committed.removed) (present : o.hasProcess id) :
      Planned d o (.stopRemoved id)
  | addWithdrawn (id : NodeId) (satisfied : d.voters ⊆ o.committed.voters)
      (members : o.committed.replicationTargets ⊆ d.voters) (present : o.hasProcess id)
      (withdrawn : withdrawn d o id = true) : Planned d o (.addLearner id)
  | converged (satisfied : d.voters ⊆ o.committed.voters)
      (members : o.committed.replicationTargets ⊆ d.voters) (ready : d.voters ⊆ o.ready) :
      Planned d o .converged

def Action.isBlocked : Action → Bool
  | .blocked _ => true
  | _ => false

theorem ascending_head_some {set : Finset NodeId} (first : (ascending set).head? = some id) : id ∈ set :=
  mem_ascending.mp (List.mem_of_head? first)

theorem ascending_head_none {set : Finset NodeId} (none : (ascending set).head? = none) : set = ∅ := by
  rw [List.head?_eq_none_iff] at none
  exact Finset.eq_empty_of_forall_notMem fun element inside => by
    simpa [none] using mem_ascending.mpr inside

theorem planned_admit (desired : id ∈ d.voters) (voter : id ∉ o.committed.voters) :
    (admitVoter o id).isBlocked = true ∨ Planned d o (admitVoter o id) := by
  unfold admitVoter
  split
  · rename_i absent
    split
    · rename_i learner
      exact .inr (.restartLearner id desired voter learner absent)
    · rename_i learner
      exact .inr (.createLearner id desired voter learner absent)
  · rename_i p present
    split
    · rename_i learner
      split
      · exact .inl rfl
      · exact .inr (.addDesired id desired voter learner (by simp [Observation.hasProcess, present]))
    · rename_i learner
      split
      · exact .inl rfl
      · rename_i behind
        obtain ⟨ready, caughtUp⟩ := not_or.mp behind
        dsimp only
        split
        · exact .inl rfl
        · rename_i quorum
          exact .inr (.promoteLearner id desired voter (not_not.mp learner) (not_not.mp ready)
            (not_lt.mp caughtUp) (not_lt.mp quorum))

theorem planned_retire (satisfied : d.voters ⊆ o.committed.voters)
    (first : (ascending (o.committed.replicationTargets \ d.voters)).head? = some id) :
    (retire d o id).isBlocked = true ∨ Planned d o (retire d o id) := by
  unfold retire
  split
  · rename_i voter
    have erased : o.committed.voters.filter (fun other => other ≠ id) = o.committed.voters.erase id :=
      Finset.filter_ne' _ _
    dsimp only
    rw [erased]
    split
    · exact .inl rfl
    · rename_i allowed
      obtain ⟨floor, quorum⟩ := not_or.mp allowed
      split
      · rename_i leads
        subst leads
        split
        · rename_i target found
          have inside := mem_ascending.mp (List.mem_of_find?_eq_some found)
          obtain ⟨survives, -⟩ := Finset.mem_inter.mp inside
          obtain ⟨other, member⟩ := Finset.mem_erase.mp survives
          have caughtUp := List.find?_some found
          exact .inr (.transferLeadership target satisfied first member other
            (of_decide_eq_true caughtUp))
        · exact .inl rfl
      · rename_i follower
        exact .inr (.removeVoter id satisfied first voter follower (not_lt.mp floor) (not_lt.mp quorum))
  · rename_i voter
    exact .inr (.removeLearner id satisfied first voter)

theorem planned_cleanUp (satisfied : d.voters ⊆ o.committed.voters)
    (members : o.committed.replicationTargets ⊆ d.voters) :
    (cleanUp d o).isBlocked = true ∨ Planned d o (cleanUp d o) := by
  unfold cleanUp
  split
  · rename_i id found
    exact .inr (.stopRemoved id (mem_ascending.mp (List.mem_of_find?_eq_some found))
      (List.find?_some found))
  · split
    · rename_i id p found
      split
      · exact .inl rfl
      · have present := SortedMap.mem_entries.mp (List.mem_of_find?_eq_some found)
        have outside := List.find?_some found
        exact .inr (.addWithdrawn id satisfied members (by simp [Observation.hasProcess, present])
          outside)
    · split
      · exact .inl rfl
      · rename_i ready
        exact .inr (.converged satisfied members (not_not.mp ready))

theorem planned_nextChange : (nextChange d o).isBlocked = true ∨ Planned d o (nextChange d o) := by
  unfold nextChange
  split
  · rename_i id found
    obtain ⟨desired, voter⟩ := Finset.mem_inter.mp (mem_ascending.mp (List.mem_of_find?_eq_some found))
    have absent := List.find?_some found
    simp only [Observation.hasProcess, Bool.not_eq_true', Option.isSome_eq_false_iff,
      Option.isNone_iff_eq_none] at absent
    exact .inr (.restartVoter id desired voter absent)
  · split
    · rename_i id first
      obtain ⟨desired, voter⟩ := Finset.mem_sdiff.mp (ascending_head_some first)
      exact planned_admit desired voter
    · rename_i none
      have satisfied := Finset.sdiff_eq_empty_iff_subset.mp (ascending_head_none none)
      split
      · rename_i id first
        exact planned_retire satisfied first
      · rename_i none
        exact planned_cleanUp satisfied (Finset.sdiff_eq_empty_iff_subset.mp (ascending_head_none none))

/-- Every action that is not `blocked` is taken with authority and for its reasons. -/
theorem nextAction_planned (acts : (nextAction d o).isBlocked = false) :
    Authorized d o ∧ Planned d o (nextAction d o) := by
  unfold nextAction at acts ⊢
  split_ifs at acts ⊢ with authority pending conflict unmanaged tombstoned quorum
  · cases acts
  · cases acts
  · cases acts
  · cases acts
  · cases acts
  · simp only [not_or, Bool.not_eq_false, not_lt] at authority
    obtain ⟨index, term, leader, configIndex⟩ := authority
    simp only [Bool.not_eq_true, Bool.or_eq_false_iff, ClusterMembership.isJoint,
      Option.isSome_eq_false_iff, Option.isNone_iff_eq_none] at pending
    obtain ⟨settled, stable⟩ := pending
    simp only [isVoter, stable, decide_eq_true_eq] at leader
    simp only [hasVoteQuorum, stable, Bool.not_eq_true', decide_eq_false_iff_not, not_not] at quorum
    refine ⟨⟨index, term, leader, configIndex, settled, stable, Bool.not_eq_true _ ▸ conflict, unmanaged,
      tombstoned, quorum⟩, ?_⟩
    exact planned_nextChange.resolve_left (by simp [acts])
  · cases acts

/-- What `reconcile` checks before it plans. -/
structure Accepted (d : DesiredTopology) (o : Observation) : Prop where
  topology : d.validate = .ok ()
  membership : o.committed.Valid
  cluster : o.cluster = d.cluster
  revision : o.acceptedRevision = d.revision
  processes : o.processes.entries.length ≤ maxOperatorNodes
  matched : o.matched.entries.length ≤ maxOperatorNodes
  members : o.committed.replicationTargets.card ≤ maxOperatorNodes

theorem reconcile_eq_ok : reconcile d o = .ok plan ↔ Accepted d o ∧ plan = {
    version := operatorVersion
    cluster := d.cluster
    revision := d.revision
    leader := o.leader
    term := o.term
    membershipGeneration := o.committed.generation
    action := nextAction d o } := by
  unfold reconcile
  simp only [check_eq_ok, guard_eq_ok, pure_eq_ok, validate_eq_ok, not_or, not_not, not_lt]
  constructor
  · rintro ⟨topology, membership, ⟨cluster, revision⟩, ⟨processes, «matched», members⟩, rfl⟩
    exact ⟨⟨topology, membership, cluster, revision, processes, «matched», members⟩, rfl⟩
  · rintro ⟨accepted, rfl⟩
    exact ⟨accepted.topology, accepted.membership, ⟨accepted.cluster, accepted.revision⟩,
      ⟨accepted.processes, accepted.matched, accepted.members⟩, rfl⟩

theorem validate_floor (valid : d.validate = .ok ()) : 0 < d.minimumVoters ∧ d.minimumVoters ≤ d.voters.card := by
  obtain ⟨-, valid⟩ := guard_eq_ok.mp valid
  obtain ⟨-, valid⟩ := guard_eq_ok.mp valid
  obtain ⟨floor, -⟩ := guard_eq_ok.mp valid
  omega

theorem replicationTargets_stable {m : ClusterMembership} (stable : m.joint = none) :
    m.replicationTargets = m.learners ∪ m.voters := by
  simp [replicationTargets, stable]

theorem first_undesired (stable : o.committed.joint = none)
    (first : (ascending (o.committed.replicationTargets \ d.voters)).head? = some id) :
    (id ∈ o.committed.learners ∨ id ∈ o.committed.voters) ∧ id ∉ d.voters := by
  have inside := Finset.mem_sdiff.mp (ascending_head_some first)
  rw [replicationTargets_stable stable, Finset.mem_union] at inside
  exact inside

theorem hasVoteQuorum_stable {m : ClusterMembership} {votes : Finset NodeId} (stable : m.joint = none) :
    m.hasVoteQuorum votes = true ↔ majority m.voters ≤ votesIn m.voters votes := by
  simp [hasVoteQuorum, stable]

/-- A change that the cluster survives: `begun` is the membership it enters and
`next` the one it ends in. -/
structure SafeChange (d : DesiredTopology) (o : Observation) (change : MembershipChange)
    (begun next : ClusterMembership) : Prop where
  leader : o.leader ∈ next.voters
  floor : ∀ id, change = .removeNode id → d.minimumVoters ≤ next.voters.card
  grows : (∀ id, change ≠ .removeNode id) → o.committed.voters ⊆ next.voters
  untombstoned : Disjoint o.committed.removed next.replicationTargets
  quorumBefore : o.committed.hasVoteQuorum o.ready = true
  quorumDuring : begun.hasVoteQuorum o.ready = true
  quorumAfter : next.hasVoteQuorum o.ready = true
  promoted : ∀ id, change = .promoteLearner id → id ∈ o.ready ∧ o.authorityIndex ≤ o.matchedAt id

variable {index finalIndex : Nat}

theorem safe_of_carried {change : MembershipChange} {begun next : ClusterMembership}
    {voters learners removed : Finset NodeId} (authorized : Authorized d o)
    (carried : Carried o.committed next index finalIndex voters learners removed)
    (keeps : o.committed.removed ⊆ removed) (leader : o.leader ∈ voters)
    (quorum : majority voters ≤ votesIn voters o.ready) (during : begun.hasVoteQuorum o.ready = true)
    (floor : ∀ id, change = .removeNode id → d.minimumVoters ≤ voters.card)
    (grows : (∀ id, change ≠ .removeNode id) → o.committed.voters ⊆ voters)
    (promoted : ∀ id, change = .promoteLearner id → id ∈ o.ready ∧ o.authorityIndex ≤ o.matchedAt id) :
    SafeChange d o change begun next where
  leader := carried.voters ▸ leader
  floor := carried.voters ▸ floor
  grows := carried.voters ▸ grows
  untombstoned := by
    have apart := Finset.disjoint_union_left.mpr
      ⟨carried.valid.learnersRemoved, carried.valid.votersRemoved⟩
    rw [carried.removed] at apart
    rw [replicationTargets_stable carried.stable]
    exact (apart.mono_right keeps).symm
  quorumBefore := (hasVoteQuorum_stable authorized.stable).mpr authorized.quorum
  quorumDuring := during
  quorumAfter := (hasVoteQuorum_stable carried.stable).mpr (carried.voters ▸ quorum)
  promoted := promoted

theorem safe_addLearner (accepted : Accepted d o) (authorized : Authorized d o)
    (voter : id ∉ o.committed.voters) (learner : id ∉ o.committed.learners)
    (removed : id ∉ o.committed.removed) (room : o.committed.generation + 2 < 2 ^ 64) :
    ∃ begun next, transitionMembership o.committed (.addLearner id) index = .ok begun ∧
      carryThrough o.committed (.addLearner id) index finalIndex = .ok next ∧
      SafeChange d o (.addLearner id) begun next := by
  obtain ⟨next, carried⟩ := exists_carryThrough_addLearner index finalIndex accepted.membership
    authorized.stable voter learner removed room
  obtain ⟨begun, first, -⟩ := bind_eq_ok.mp carried
  obtain ⟨-, -, -, -, -, -, voters, -, stable, -⟩ := addLearner_eq_ok first
  refine ⟨begun, next, first, carried, safe_of_carried authorized (carried_addLearner carried) subset_rfl
    authorized.leader authorized.quorum ?_ (by simp) (fun _ => subset_rfl) (by simp)⟩
  exact (hasVoteQuorum_stable stable).mpr (voters ▸ authorized.quorum)

theorem safe_promoteLearner (accepted : Accepted d o) (authorized : Authorized d o)
    (learner : id ∈ o.committed.learners) (ready : id ∈ o.ready) (caughtUp : o.authorityIndex ≤ o.matchedAt id)
    (quorum : majority (insert id o.committed.voters) ≤ votesIn (insert id o.committed.voters) o.ready)
    (room : o.committed.generation + 2 < 2 ^ 64) :
    ∃ begun next, transitionMembership o.committed (.promoteLearner id) index = .ok begun ∧
      carryThrough o.committed (.promoteLearner id) index finalIndex = .ok next ∧
      SafeChange d o (.promoteLearner id) begun next := by
  obtain ⟨next, carried⟩ := exists_carryThrough_promoteLearner index finalIndex accepted.membership
    authorized.stable learner room
  obtain ⟨begun, first, -⟩ := bind_eq_ok.mp carried
  obtain ⟨-, -, -, -, -, -, joint, -⟩ := beginPromotion_eq_ok first
  refine ⟨begun, next, first, carried, safe_of_carried authorized (carried_promoteLearner carried)
    subset_rfl (Finset.mem_insert_of_mem authorized.leader) quorum ?_ (by simp)
    (fun _ => Finset.subset_insert _ _) ?_⟩
  · simp [hasVoteQuorum, joint, quorum, authorized.quorum]
  · rintro promoted ⟨⟩
    exact ⟨ready, caughtUp⟩

theorem safe_removeVoter (accepted : Accepted d o) (authorized : Authorized d o)
    (voter : id ∈ o.committed.voters) (follower : id ≠ o.leader)
    (floor : d.minimumVoters ≤ (o.committed.voters.erase id).card)
    (quorum : majority (o.committed.voters.erase id) ≤ votesIn (o.committed.voters.erase id) o.ready)
    (room : o.committed.generation + 2 < 2 ^ 64) :
    ∃ begun next, transitionMembership o.committed (.removeNode id) index = .ok begun ∧
      carryThrough o.committed (.removeNode id) index finalIndex = .ok next ∧
      SafeChange d o (.removeNode id) begun next := by
  have learner : id ∉ o.committed.learners :=
    Finset.disjoint_left.mp accepted.membership.votersLearners voter
  have several : 1 < o.committed.voters.card := by
    have positive := (validate_floor accepted.topology).1
    rw [Finset.card_erase_of_mem voter] at floor
    omega
  obtain ⟨next, carried⟩ := exists_carryThrough_removeNode index finalIndex accepted.membership
    authorized.stable (.inr ⟨voter, several⟩) room
  obtain ⟨begun, first, -⟩ := bind_eq_ok.mp carried
  obtain ⟨-, -, -, -, shape⟩ := beginRemoval_eq_ok first
  obtain ⟨-, -, -, -, joint, -⟩ := shape.resolve_left fun shape => learner shape.1
  refine ⟨begun, next, first, carried, safe_of_carried authorized (carried_removeNode carried)
    (Finset.subset_insert _ _) (Finset.mem_erase.mpr ⟨follower.symm, authorized.leader⟩) quorum ?_
    (fun _ _ => floor) (fun other => absurd rfl (other id)) (by simp)⟩
  simp [hasVoteQuorum, joint, quorum, authorized.quorum]

theorem safe_removeLearner (accepted : Accepted d o) (authorized : Authorized d o)
    (satisfied : d.voters ⊆ o.committed.voters) (learner : id ∈ o.committed.learners)
    (room : o.committed.generation + 2 < 2 ^ 64) :
    ∃ begun next, transitionMembership o.committed (.removeNode id) index = .ok begun ∧
      carryThrough o.committed (.removeNode id) index finalIndex = .ok next ∧
      SafeChange d o (.removeNode id) begun next := by
  have voter : id ∉ o.committed.voters :=
    Finset.disjoint_right.mp accepted.membership.votersLearners learner
  have floor : d.minimumVoters ≤ o.committed.voters.card :=
    (validate_floor accepted.topology).2.trans (Finset.card_le_card satisfied)
  obtain ⟨next, carried⟩ := exists_carryThrough_removeNode index finalIndex accepted.membership
    authorized.stable (.inl learner) room
  obtain ⟨begun, first, -⟩ := bind_eq_ok.mp carried
  obtain ⟨-, -, -, voters, shape⟩ := beginRemoval_eq_ok first
  obtain ⟨-, -, stable, -⟩ := shape.resolve_right fun shape => shape.1 learner
  have last := carried_removeNode carried
  rw [Finset.erase_eq_of_notMem voter] at last
  refine ⟨begun, next, first, carried, safe_of_carried authorized last (Finset.subset_insert _ _)
    authorized.leader authorized.quorum ?_ (fun _ _ => floor) (fun other => absurd rfl (other id))
    (by simp)⟩
  exact (hasVoteQuorum_stable stable).mpr (voters ▸ authorized.quorum)

/-- A planned membership change succeeds and keeps the cluster alive, as long as the
generation counter has room for it. -/
theorem plan_changes_safe (d : DesiredTopology) (o : Observation) (plan : Plan)
    (change : MembershipChange) (planned : reconcile d o = .ok plan)
    (changes : plan.action.membershipChange = some change)
    (room : o.committed.generation + 2 < 2 ^ 64) (index finalIndex : Nat) :
    ∃ begun next, transitionMembership o.committed change index = .ok begun ∧
      carryThrough o.committed change index finalIndex = .ok next ∧ SafeChange d o change begun next := by
  obtain ⟨accepted, rfl⟩ := reconcile_eq_ok.mp planned
  have acts : (nextAction d o).isBlocked = false := by
    cases blocked : nextAction d o <;> simp_all [Action.membershipChange, Action.isBlocked]
  obtain ⟨authorized, reasons⟩ := nextAction_planned acts
  generalize nextAction d o = action at reasons changes
  cases reasons with
  | restartVoter => cases changes
  | restartLearner => cases changes
  | createLearner => cases changes
  | transferLeadership => cases changes
  | stopRemoved => cases changes
  | converged => cases changes
  | addDesired id desired voter learner =>
    cases changes
    exact safe_addLearner accepted authorized voter learner
      (Finset.disjoint_left.mp authorized.untombstoned desired) room
  | addWithdrawn id satisfied members present outside =>
    cases changes
    simp only [withdrawn, Bool.and_eq_true, decide_eq_true_eq,
      replicationTargets_stable authorized.stable, Finset.mem_union, not_or] at outside
    exact safe_addLearner accepted authorized outside.1.2.2 outside.1.2.1 outside.2 room
  | promoteLearner id desired voter learner ready caughtUp quorum =>
    cases changes
    exact safe_promoteLearner accepted authorized learner ready caughtUp quorum room
  | removeVoter id satisfied first voter follower floor quorum =>
    cases changes
    exact safe_removeVoter accepted authorized voter follower floor quorum room
  | removeLearner id satisfied first voter =>
    cases changes
    have learner := (first_undesired authorized.stable first).1.resolve_right voter
    exact safe_removeLearner accepted authorized satisfied learner room

section ScaleUp

def threeVoters : DesiredTopology where
  version := operatorVersion
  cluster := "c1"
  revision := 1
  endpoints := .ofList [("a", "a:1"), ("b", "b:1"), ("c", "c:1")]
  voters := {"a", "b", "c"}
  minimumVoters := 3

def oneVoter (generation : Nat) : Observation where
  cluster := "c1"
  acceptedRevision := 1
  leader := "a"
  term := 1
  authorityIndex := 1
  committed := { ClusterMembership.bootstrap "a" [] with generation }
  transitionPending := false
  processes := .ofList [
    ("a", { cluster := "c1", endpoint := "a:1", learnerBootstrap := false, ready := true, applied := 1 }),
    ("b", { cluster := "c1", endpoint := "b:1", learnerBootstrap := true, ready := true, applied := 1 })]
  matched := .ofList [("b", 1)]

def scaleUpPlan (generation : Nat) : Plan where
  version := operatorVersion
  cluster := "c1"
  revision := 1
  leader := "a"
  term := 1
  membershipGeneration := generation
  action := .addLearner "b"

theorem plan_changes_safe_scaleUp : reconcile threeVoters (oneVoter 1) = .ok (scaleUpPlan 1) ∧
      ∃ begun next, transitionMembership (oneVoter 1).committed (.addLearner "b") 2 = .ok begun ∧
        carryThrough (oneVoter 1).committed (.addLearner "b") 2 3 = .ok next ∧
        SafeChange threeVoters (oneVoter 1) (.addLearner "b") begun next := by
  have planned : reconcile threeVoters (oneVoter 1) = .ok (scaleUpPlan 1) := by decide +kernel
  exact ⟨planned, plan_changes_safe _ _ _ _ planned rfl (by decide) 2 3⟩

/-- A change that only adds may leave fewer voters than the floor, and at the last
generation no change succeeds at all. -/
theorem scale_up_below_floor : (¬ ∀ d o plan change index next, reconcile d o = .ok plan →
      plan.action.membershipChange = some change → transitionMembership o.committed change index = .ok next →
        d.minimumVoters ≤ next.voters.card) ∧ ¬ ∀ d o plan change index, reconcile d o = .ok plan →
      plan.action.membershipChange = some change →
        ∃ next, transitionMembership o.committed change index = .ok next := by
  constructor
  · intro floored
    have planned : reconcile threeVoters (oneVoter 1) = .ok (scaleUpPlan 1) := by decide +kernel
    have below := floored threeVoters (oneVoter 1) (scaleUpPlan 1) (.addLearner "b") 2
      { ClusterMembership.bootstrap "a" [] with generation := 2, configIndex := 2, learners := {"b"} }
      planned rfl (by decide)
    exact absurd below (by decide)
  · intro succeeds
    have planned : reconcile threeVoters (oneVoter (2 ^ 64 - 1)) = .ok (scaleUpPlan (2 ^ 64 - 1)) := by
      decide +kernel
    obtain ⟨next, succeeded⟩ := succeeds threeVoters (oneVoter (2 ^ 64 - 1)) (scaleUpPlan (2 ^ 64 - 1))
      (.addLearner "b") 2 planned rfl
    have bounded := (addLearner_eq_ok succeeded).2.2.2.2.2.1.bounded
    exact absurd bounded (by decide)

end ScaleUp

end Neuralbase.Operator
